import Polyphony.Proofs.Binary64.Floor

/-!
# Fractions of doubles

A fraction lies below one. Rounded, it is one if the number is negative and too near to zero. The nearest
integer is told from the floor of the number and a half, and this sum is rounded too.

* `rounded_eq_one_iff`, `near_one_fract_iff`: which fractions are rounded to one, and whose they are.
* `Denotes.fraction`: the fraction that is computed.
* `floor_rounded_add_half`, `floor_rounded_add_half_of_even`: where the floor of the rounded sum is that of
  the sum, `rounded_add_half_of_odd`: and where it is not.
* `offset`: the distance that is computed from the nearest integer. `abs_offset_le`: **it is at most a half in
  size**, but for large odd numbers, `offset_of_odd`.
-/

namespace Polyphony.Binary64

open Exact

variable {x : ℝ} {k e n : ℤ} {a : Float}

theorem IsRepresentable.two_mul (hx : IsRepresentable x) : IsRepresentable (2 * x) := by
  obtain ⟨m, e, hm, he, rfl⟩ := hx
  refine ⟨m, e + 1, hm, by omega, ?_⟩
  rw [zpow_add_one₀ two_ne_zero]
  ring

/-- A quotient by a power of two. -/
theorem isRepresentable_div {d : ℕ} (hk : |k| ≤ 2 ^ 53) (hd : d ≤ 1074) :
    IsRepresentable (k / 2 ^ d) := by
  refine ⟨k, -d, hk, by omega, ?_⟩
  rw [zpow_neg, zpow_natCast, div_eq_mul_inv]

/-- What is at most a small count does not overflow. -/
theorem abs_rounded_lt {m : ℕ} (hm : m ≤ 2 ^ 53) (h : |x| ≤ m) : |rounded x| < 2 ^ (1024 : ℤ) :=
  (abs_rounded_le (isRepresentable_natCast hm) h).trans_lt ((le_abs_self _).trans_lt (natCast_lt_limit hm))

/-- **From a half on representable numbers** have 53 digits behind the point. -/
theorem IsRepresentable.exists_eq_div (hx : IsRepresentable x) (h : 1 / 2 ≤ |x|) :
    ∃ k : ℤ, x = k / 2 ^ 53 := by
  have hplace : (2 : ℝ) ^ (-53 + 52 : ℤ) ≤ |x| := by
    norm_num
    linarith
  obtain ⟨k, hk⟩ := hx.exists_eq_mul hplace
  refine ⟨k, ?_⟩
  rw [hk, zpow_neg, ← div_eq_mul_inv]
  rfl

/-! ### Next to one -/

/-- The last representable number before one. -/
theorem isRepresentable_before_one : IsRepresentable (1 - 1 / 2 ^ 53) := by
  have hscaled := isRepresentable_div (k := 2 ^ 53 - 1) (d := 53) (by norm_num) (by norm_num)
  norm_num at hscaled ⊢
  exact hscaled

theorem IsRepresentable.le_of_lt_one (hx : IsRepresentable x) (h : x < 1) : x ≤ 1 - 1 / 2 ^ 53 := by
  rcases lt_or_ge x (1 / 2) with hsmall | hlarge
  · linarith
  · obtain ⟨k, rfl⟩ := hx.exists_eq_div (hlarge.trans (le_abs_self x))
    rw [div_lt_one (by positivity)] at h
    have hk : k ≤ 2 ^ 53 - 1 := by
      have : k < 2 ^ 53 := by exact_mod_cast h
      omega
    have hk' : (k : ℝ) ≤ 2 ^ 53 - 1 := by exact_mod_cast hk
    rw [div_le_iff₀ (by positivity)]
    linarith

/-- Half way between the last representable number before one and one, one is the even neighbour. -/
theorem rounded_before_one : rounded (1 - 1 / 2 ^ 54) = 1 := by
  have hplace : lastPlace (1 - 1 / 2 ^ 54) = -53 := by
    refine lastPlace_of_between (e := -1) ?_ ?_ (by norm_num) <;> norm_num [abs_of_pos]
  have heven := rounded_eq_of_even hplace (k := 2 ^ 53) (by norm_num) (by norm_num)
  rw [heven]
  norm_num

/-- **What is rounded to one**, of the numbers before it. -/
theorem rounded_eq_one_iff (h : x < 1) : rounded x = 1 ↔ 1 - 1 / 2 ^ 54 ≤ x := by
  constructor
  · intro hone
    by_contra! hlt
    -- the number is nearer to the last one before one
    have hnear := abs_sub_rounded_le_abs_sub (x := x) isRepresentable_before_one
    rw [hone, abs_of_neg (by linarith)] at hnear
    rcases abs_cases (x - (1 - 1 / 2 ^ 53)) with ⟨habs, -⟩ | ⟨habs, -⟩ <;> rw [habs] at hnear <;> linarith
  · intro hge
    apply le_antisymm
    · exact rounded_le isRepresentable_one h.le
    · rw [← rounded_before_one]
      exact rounded_mono hge

/-! ### Fractions -/

/-- **Just below zero**: nearer than one is to the middle between it and the double before it. -/
def IsJustBelowZero (x : ℝ) : Prop := -(1 / 2 ^ 54) ≤ x ∧ x < 0

theorem fract_of_neg (hlow : -1 ≤ x) (hneg : x < 0) : Int.fract x = x + 1 := by
  have hfloor : ⌊x⌋ = -1 := by
    rw [Int.floor_eq_iff]
    push_cast
    constructor <;> linarith
  rw [Int.fract, hfloor]
  push_cast
  ring

/-- From a half on fractions need no rounding. -/
theorem isRepresentable_fract (hx : IsRepresentable x) (h : 1 / 2 ≤ |x|) :
    IsRepresentable (Int.fract x) := by
  obtain ⟨k, hk⟩ := hx.exists_eq_div h
  have hfract : Int.fract x = ((k - ⌊x⌋ * 2 ^ 53 : ℤ) : ℝ) / 2 ^ 53 := by
    rw [eq_div_iff (by positivity), Int.fract, sub_mul, (eq_div_iff (by positivity)).1 hk]
    push_cast
    ring
  have hlow := Int.fract_nonneg x
  have hhigh := Int.fract_lt_one x
  rw [hfract] at hlow hhigh ⊢
  rw [le_div_iff₀ (by positivity), zero_mul] at hlow
  rw [div_lt_one (by positivity)] at hhigh
  have hlow' : 0 ≤ k - ⌊x⌋ * 2 ^ 53 := by exact_mod_cast hlow
  have hhigh' : k - ⌊x⌋ * 2 ^ 53 < 2 ^ 53 := by exact_mod_cast hhigh
  exact isRepresentable_div (by rw [abs_of_nonneg hlow']; exact hhigh'.le) (by norm_num)

/-- **The fractions that are next to one** are those of numbers just below zero: a number that is a half or
more in size has no digits that far behind the point. -/
theorem near_one_fract_iff (hx : IsRepresentable x) : 1 - 1 / 2 ^ 54 ≤ Int.fract x ↔ IsJustBelowZero x := by
  constructor
  · intro hnear
    rcases lt_or_ge |x| (1 / 2) with hsmall | hlarge
    · obtain ⟨hlow, hhigh⟩ := abs_lt.1 hsmall
      rcases lt_or_ge x 0 with hneg | hnonneg
      · rw [fract_of_neg (by linarith) hneg] at hnear
        exact ⟨by linarith, hneg⟩
      · rw [Int.fract_eq_self.2 ⟨hnonneg, by linarith⟩] at hnear
        linarith
    · have hle := (isRepresentable_fract hx hlarge).le_of_lt_one (Int.fract_lt_one x)
      linarith
  · rintro ⟨hlow, hneg⟩
    rw [fract_of_neg (by linarith) hneg]
    linarith

/-- **A fraction is computed as one** just below zero, and nowhere else. -/
theorem rounded_fract_eq_one_iff (hx : IsRepresentable x) :
    rounded (Int.fract x) = 1 ↔ IsJustBelowZero x := by
  rw [rounded_eq_one_iff (Int.fract_lt_one x), near_one_fract_iff hx]

theorem rounded_fract_nonneg (x : ℝ) : 0 ≤ rounded (Int.fract x) :=
  rounded_nonneg (Int.fract_nonneg x)

theorem rounded_fract_le_one (x : ℝ) : rounded (Int.fract x) ≤ 1 :=
  rounded_le isRepresentable_one (Int.fract_lt_one x).le

/-- **The fraction that is computed** is the fraction, rounded. -/
theorem Denotes.sub_floor (ha : Denotes a x) : Denotes (a - Binary64.floor a) (rounded (Int.fract x)) := by
  refine ha.sub ha.floor (abs_rounded_lt (m := 1) (by norm_num) ?_)
  rw [Int.self_sub_floor, abs_of_nonneg (Int.fract_nonneg x), Nat.cast_one]
  exact (Int.fract_lt_one x).le

/-! ### A number and a half -/

/-- **The distance from the nearest integer**, as it is computed. -/
noncomputable def offset (x : ℝ) : ℝ := rounded (x - ⌊rounded (x + 1 / 2)⌋)

theorem isRepresentable_half : IsRepresentable (1 / 2) := by
  have hscaled := isRepresentable_div (k := 1) (d := 1) (by norm_num) (by norm_num)
  rwa [Int.cast_one, pow_one] at hscaled

/-- Rounding does not lead away from the lower half of a unit. -/
theorem floor_rounded_of_lower_half {m : ℕ} (hm : m ≤ 2 ^ 53) (hlow : m ≤ x) (hhigh : x < m + 1 / 2) :
    ⌊rounded x⌋ = ⌊x⌋ := by
  have hcount : IsRepresentable m := isRepresentable_natCast hm
  have hrounded : (m : ℝ) ≤ rounded x := le_rounded hcount hlow
  have hnear := abs_sub_rounded_le_abs_sub (x := x) hcount
  rw [abs_of_nonneg (sub_nonneg.2 hlow)] at hnear
  have hbelow := (abs_le.1 hnear).1
  have hfloor : ∀ y : ℝ, (m : ℝ) ≤ y → y < m + 1 → ⌊y⌋ = m := fun y hy hy' => Int.floor_eq_iff.2 ⟨hy, hy'⟩
  rw [hfloor _ hrounded (by linarith), hfloor _ hlow (by linarith)]

/-- Between a half and `2 ^ 52` the last place is behind the point. -/
theorem lastPlace_bounds (hlow : 1 / 2 ≤ |x|) (hhigh : |x| < 2 ^ 52) : -53 ≤ lastPlace x ∧ lastPlace x < 0 := by
  constructor
  · refine le_lastPlace ?_
    norm_num
    linarith
  · by_contra! hnonneg
    have hfirst := le_abs_of_lastPlace (x := x) (by omega)
    have hplace : (2 : ℝ) ^ (52 : ℤ) ≤ 2 ^ (lastPlace x + 52) := two_zpow_le (by omega)
    exact absurd hhigh (not_lt.2 (hplace.trans hfirst))

/-- A multiple of a place is representable up to 53 digits. -/
theorem isRepresentable_of_le (he : -1074 ≤ e) (h : |k * (2 : ℝ) ^ e| ≤ 2 ^ (e + 53)) :
    IsRepresentable (k * 2 ^ e) := by
  rw [abs_mul, abs_of_pos (two_zpow_pos e), add_comm e, two_zpow_add] at h
  refine ⟨k, e, ?_, he, rfl⟩
  exact_mod_cast le_of_mul_le_mul_right h (two_zpow_pos e)

/-- A half is a multiple of a place behind the point, and so is its sum with another multiple. -/
theorem exists_add_half_eq_mul (he : e < 0) (k : ℤ) : ∃ j : ℤ, k * (2 : ℝ) ^ e + 1 / 2 = j * 2 ^ e := by
  obtain ⟨j, hj⟩ := exists_multiple_of_le 1 (show e ≤ -1 by omega)
  have hhalf : (1 / 2 : ℝ) = j * 2 ^ e := by
    rw [← hj]
    norm_num
  refine ⟨k + j, ?_⟩
  rw [hhalf, Int.cast_add, add_mul]

/-- A half leads past a power of two by less than a half. -/
theorem floor_rounded_of_past_power {d : ℕ} (hd : d ≤ 53) (hx : |x| < 2 ^ d) (hpast : 2 ^ d < |x + 1 / 2|) :
    ⌊rounded (x + 1 / 2)⌋ = ⌊x + 1 / 2⌋ := by
  obtain ⟨hlow, hhigh⟩ := abs_lt.1 hx
  have hnonneg : 0 ≤ x + 1 / 2 := by
    by_contra! hneg
    rw [abs_of_neg hneg] at hpast
    linarith
  have hcount : (2 : ℝ) ^ d = ((2 ^ d : ℕ) : ℝ) := by push_cast; rfl
  rw [abs_of_nonneg hnonneg, hcount] at hpast
  rw [hcount] at hhigh
  exact floor_rounded_of_lower_half (Nat.pow_le_pow_right two_pos hd) hpast.le (by linarith)

/-- **Between a half and `2 ^ 52`** the sum has the floor that it has without rounding: it needs none, unless
it passes a power of two. -/
theorem floor_rounded_add_half (hx : IsRepresentable x) (hlow : 1 / 2 ≤ |x|) (hhigh : |x| < 2 ^ 52) :
    ⌊rounded (x + 1 / 2)⌋ = ⌊x + 1 / 2⌋ := by
  obtain ⟨k, hk, hk'⟩ := exists_multiple hx le_rfl
  have hmultiple : x = k * 2 ^ lastPlace x := le_antisymm hk hk'
  have hpower := abs_lt_of_lastPlace x
  obtain ⟨hge, hlt⟩ := lastPlace_bounds hlow hhigh
  generalize lastPlace x = p at hmultiple hpower hge hlt
  rcases le_or_gt |x + 1 / 2| (2 ^ (p + 53)) with hle | hpast
  · obtain ⟨j, hj⟩ := exists_add_half_eq_mul hlt k
    rw [← hmultiple] at hj
    rw [hj] at hle ⊢
    rw [rounded_eq_self (isRepresentable_of_le (by omega) hle)]
  · obtain ⟨d, hd⟩ := Int.eq_ofNat_of_zero_le (show 0 ≤ p + 53 by omega)
    rw [hd, zpow_natCast] at hpast hpower
    exact floor_rounded_of_past_power (by omega) hpower hpast

/-- Half way between a half and the next representable number, a half is the even neighbour. -/
theorem rounded_after_half : rounded (1 / 2 + 1 / 2 ^ 54) = 1 / 2 := by
  have hplace : lastPlace (1 / 2 + 1 / 2 ^ 54) = -53 := by
    refine lastPlace_of_between (e := -1) ?_ ?_ (by norm_num) <;> norm_num [abs_of_pos]
  have heven := rounded_eq_of_even hplace (k := 2 ^ 52) (by norm_num) (by norm_num)
  rw [heven]
  norm_num

/-- **Below a half** the floor is zero, or one if the sum is rounded up. -/
theorem abs_offset_le_of_small (h : |x| < 1 / 2) : |offset x| ≤ 1 / 2 := by
  obtain ⟨hlow, hhigh⟩ := abs_lt.1 h
  have hnonneg : 0 ≤ rounded (x + 1 / 2) := rounded_nonneg (by linarith)
  have hle : rounded (x + 1 / 2) ≤ 1 := rounded_le isRepresentable_one (by linarith)
  rcases hle.lt_or_eq with hlt | hone
  · have hfloor : ⌊rounded (x + 1 / 2)⌋ = 0 := Int.floor_eq_zero_iff.2 ⟨hnonneg, hlt⟩
    rw [offset, hfloor, Int.cast_zero, sub_zero]
    exact abs_rounded_le isRepresentable_half h.le
  · have hup := (rounded_eq_one_iff (by linarith)).1 hone
    have hdown : -(1 / 2) ≤ rounded (x - 1) := by
      rw [← rounded_after_half, ← rounded_neg]
      exact rounded_mono (by linarith)
    rw [offset, hone, Int.floor_one, Int.cast_one]
    exact abs_le.2 ⟨hdown, rounded_le isRepresentable_half (by linarith)⟩

/-! ### Large integers -/

/-- **Large odd numbers**: there is no double between such a number and the next integer. -/
def IsLargeOdd (x : ℝ) : Prop := 2 ^ 52 ≤ |x| ∧ ∃ n : ℤ, Odd n ∧ x = n

theorem IsRepresentable.abs_lt_of_odd (h : IsRepresentable n) (hn : Odd n) : |n| < 2 ^ 53 := by
  by_contra! hlarge
  have hlarge' : (2 : ℝ) ^ (1 + 52 : ℤ) ≤ |(n : ℝ)| := by exact_mod_cast hlarge
  obtain ⟨k, hk⟩ := h.exists_eq_mul hlarge'
  have heven : n = k * 2 := by exact_mod_cast hk
  exact (Int.not_odd_iff_even.2 ⟨k, by omega⟩) hn

theorem lastPlace_add_half (hlow : 2 ^ 52 ≤ |(n : ℝ) + 1 / 2|) (hhigh : |(n : ℝ) + 1 / 2| < 2 ^ 53) :
    lastPlace (n + 1 / 2) = 0 :=
  lastPlace_of_between (e := 52) (by exact_mod_cast hlow) (by exact_mod_cast hhigh) (by norm_num)

/-- Half way between two integers, the even one. -/
theorem rounded_add_half_eq {m : ℤ} (hlow : 2 ^ 52 ≤ |(n : ℝ) + 1 / 2|) (hhigh : |(n : ℝ) + 1 / 2| < 2 ^ 53)
    (hm : Even m) (hnear : m = n ∨ m = n + 1) : rounded (n + 1 / 2) = m := by
  have hhalf : |(n : ℝ) + 1 / 2 - m * 2 ^ (0 : ℤ)| ≤ 2 ^ (0 : ℤ) / 2 := by
    rw [zpow_zero, mul_one]
    rcases hnear with rfl | rfl
    · rw [abs_le]
      constructor <;> linarith
    · push_cast
      rw [abs_le]
      constructor <;> linarith
  have heven := rounded_eq_of_even (lastPlace_add_half hlow hhigh) hhalf hm
  rwa [zpow_zero, mul_one] at heven

/-- The size of an integer and a half. -/
theorem abs_add_half (n : ℤ) : |(n : ℝ) + 1 / 2| = if 0 ≤ n then |(n : ℝ)| + 1 / 2 else |(n : ℝ)| - 1 / 2 := by
  split_ifs with hn
  · have hn' : (0 : ℝ) ≤ n := by exact_mod_cast hn
    rw [abs_of_nonneg hn', abs_of_nonneg (by linarith)]
  · have hn' : (n : ℝ) ≤ -1 := by exact_mod_cast (by omega : n ≤ -1)
    rw [abs_of_nonpos (by linarith), abs_of_nonpos (by linarith)]
    ring

/-- **A large odd number and a half** is rounded up to the even neighbour. -/
theorem rounded_add_half_of_odd (h : IsRepresentable n) (hn : Odd n) (hlow : 2 ^ 52 ≤ |n|) :
    rounded (n + 1 / 2) = n + 1 := by
  have hhigh : |(n : ℝ)| ≤ 2 ^ 53 - 1 := by
    have hlt : |n| ≤ 2 ^ 53 - 1 := Int.le_sub_one_of_lt (h.abs_lt_of_odd hn)
    exact_mod_cast hlt
  have hlow' : (2 : ℝ) ^ 52 + 1 ≤ |(n : ℝ)| := by
    obtain ⟨k, hk⟩ := odd_abs.2 hn
    have hlt : 2 ^ 52 + 1 ≤ |n| := by omega
    exact_mod_cast hlt
  have hsize := abs_add_half n
  have hround := rounded_add_half_eq (n := n) (m := n + 1) (by rw [hsize]; split_ifs <;> linarith)
    (by rw [hsize]; split_ifs <;> linarith) hn.add_one (.inr rfl)
  rw [hround, Int.cast_add, Int.cast_one]

/-- Below `2 ^ 52` an integer and a half needs no rounding. -/
theorem isRepresentable_add_half (h : |(n : ℝ) + 1 / 2| < 2 ^ 52) : IsRepresentable (n + 1 / 2) := by
  have hhalf : (n : ℝ) + 1 / 2 = ((2 * n + 1 : ℤ) : ℝ) / 2 ^ 1 := by
    push_cast
    ring
  have hdigits : |2 * n + 1| ≤ 2 ^ 53 := by
    rw [hhalf, abs_div, abs_of_pos (by norm_num : (0 : ℝ) < 2 ^ 1), div_lt_iff₀ (by norm_num)] at h
    have hcast : |2 * n + 1| < 2 ^ 52 * 2 ^ 1 := by exact_mod_cast h
    exact hcast.le
  rw [hhalf]
  exact isRepresentable_div hdigits (by norm_num)

/-- **An even number and a half** has the number itself as its floor, rounded or not. -/
theorem floor_rounded_add_half_of_even (h : IsRepresentable n) (hn : Even n) :
    ⌊rounded (n + 1 / 2)⌋ = n := by
  have hge : (n : ℝ) ≤ rounded (n + 1 / 2) := le_rounded h (by linarith)
  have hle : rounded (n + 1 / 2) ≤ n + 1 := by
    have hnear := abs_sub_rounded_le_abs_sub (x := n + 1 / 2) h
    rw [add_sub_cancel_left, abs_of_pos (by norm_num : (0 : ℝ) < 1 / 2)] at hnear
    linarith [(abs_le.1 hnear).1]
  rw [Int.floor_eq_iff]
  refine ⟨hge, lt_of_le_of_ne hle fun hup => ?_⟩
  -- then the next integer is representable, and odd, so that the sum is the middle of two integers
  have hnext : IsRepresentable ((n + 1 : ℤ) : ℝ) := by
    push_cast
    rw [← hup]
    exact isRepresentable_rounded _
  have hhigh := hnext.abs_lt_of_odd hn.add_one
  rcases lt_or_ge |(n : ℝ) + 1 / 2| (2 ^ 52) with hsmall | hlarge
  · rw [rounded_eq_self (isRepresentable_add_half hsmall)] at hup
    linarith
  · have hlimit : |(n : ℝ) + 1 / 2| < 2 ^ 53 := by
      obtain ⟨hlow', hhigh'⟩ := abs_lt.1 hhigh
      have hlowReal : -2 ^ 53 ≤ (n : ℝ) := by exact_mod_cast (by omega : -2 ^ 53 ≤ n)
      have hhighReal : (n : ℝ) ≤ 2 ^ 53 - 2 := by exact_mod_cast (by omega : n ≤ 2 ^ 53 - 2)
      rw [abs_lt]
      constructor <;> linarith
    rw [rounded_add_half_eq hlarge hlimit hn (.inl rfl)] at hup
    linarith

/-! ### What is left -/

/-- **The distance that is computed from the nearest integer** is at most a half, but for large odd
numbers. -/
theorem abs_offset_le (hx : IsRepresentable x) (hodd : ¬ IsLargeOdd x) : |offset x| ≤ 1 / 2 := by
  rcases lt_or_ge |x| (1 / 2) with hsmall | hlow
  · exact abs_offset_le_of_small hsmall
  rcases lt_or_ge |x| (2 ^ 52) with hhigh | hlarge
  · have hfloor := Int.floor_le (x + 1 / 2)
    have hfloor' := Int.lt_floor_add_one (x + 1 / 2)
    rw [offset, floor_rounded_add_half hx hlow hhigh]
    refine abs_rounded_le isRepresentable_half ?_
    rw [abs_le]
    constructor <;> linarith
  · obtain ⟨n, rfl⟩ := hx.exists_intCast hlarge
    have heven : Even n := Int.not_odd_iff_even.1 fun hn => hodd ⟨hlarge, n, hn, rfl⟩
    rw [offset, floor_rounded_add_half_of_even hx heven, sub_self, rounded_zero, abs_zero]
    norm_num

/-- The next integer is taken for the nearest of a large odd number. -/
theorem offset_of_odd (hx : IsRepresentable x) (hodd : IsLargeOdd x) : offset x = -1 := by
  obtain ⟨hlarge, n, hn, rfl⟩ := hodd
  have hnext : (n : ℝ) + 1 = ((n + 1 : ℤ) : ℝ) := by push_cast; rfl
  have hleft : (n : ℝ) - ⌊rounded ((n : ℝ) + 1 / 2)⌋ = -1 := by
    rw [rounded_add_half_of_odd hx hn (by exact_mod_cast hlarge), hnext, Int.floor_intCast]
    push_cast
    ring
  rw [offset, hleft, rounded_neg, rounded_eq_self isRepresentable_one]

theorem abs_offset_le_one (hx : IsRepresentable x) : |offset x| ≤ 1 := by
  by_cases hodd : IsLargeOdd x
  · rw [offset_of_odd hx hodd, abs_neg, abs_one]
  · refine (abs_offset_le hx hodd).trans ?_
    norm_num

/-- The sum does not overflow. -/
theorem abs_rounded_add_half_lt (ha : Denotes a x) : |rounded (x + 1 / 2)| < 2 ^ (1024 : ℤ) := by
  rcases le_or_gt |x| (2 ^ 53 - 1) with hsmall | hlarge
  · refine abs_rounded_lt (m := 2 ^ 53) le_rfl ?_
    have htriangle := abs_add_le x (1 / 2)
    rw [abs_of_pos (by norm_num : (0 : ℝ) < 1 / 2)] at htriangle
    push_cast
    linarith
  · obtain ⟨n, rfl⟩ := ha.isRepresentable.exists_intCast (by linarith)
    have heven : Even n := by
      refine Int.not_odd_iff_even.1 fun hn => ?_
      have hle : |n| ≤ 2 ^ 53 - 1 := Int.le_sub_one_of_lt (ha.isRepresentable.abs_lt_of_odd hn)
      exact absurd (by exact_mod_cast hle) (not_le.2 hlarge)
    obtain ⟨hlow, hhigh⟩ := Int.floor_eq_iff.1 (floor_rounded_add_half_of_even ha.isRepresentable heven)
    obtain ⟨hnlow, hnhigh⟩ := abs_lt.1 ha.abs_lt
    have hnext : (n : ℝ) + 1 ≤ 2 ^ (1024 : ℤ) := by
      obtain ⟨N, hN⟩ := exists_multiple_of_le 1 (show (0 : ℤ) ≤ 1024 by norm_num)
      rw [Int.cast_one, one_mul, zpow_zero, mul_one] at hN
      rw [hN] at hnhigh ⊢
      exact_mod_cast Int.add_one_le_of_lt (by exact_mod_cast hnhigh)
    exact abs_lt.2 ⟨hnlow.trans_le hlow, hhigh.trans_le hnext⟩

/-- **The distance that is computed from the nearest integer.** -/
theorem Denotes.sub_floor_add_half (ha : Denotes a x) :
    Denotes (a - Binary64.floor (a + 0.5)) (offset x) := by
  have hhalf : Denotes 0.5 (1 / 2) :=
    denotes_literal (m := 2 ^ 52) (e := -53) (by norm_num) rfl (by norm_num)
  refine ha.sub (ha.add hhalf (abs_rounded_add_half_lt ha)).floor ?_
  exact (abs_offset_le_one ha.isRepresentable).trans_lt (one_lt_zpow₀ one_lt_two (by norm_num))

end Polyphony.Binary64
