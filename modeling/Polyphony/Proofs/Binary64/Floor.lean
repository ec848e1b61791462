import Polyphony.Proofs.Binary64
import Polyphony.Proofs.Binary64.Sums

/-!
# Floors of doubles

* `Denotes.floor`: the floor of a double is that of the number it stands for, `Denotes.toNat_eq`
  reads an index off it.
* `toNat_toUInt64`: the word of a double, `Denotes.abs` and `Denotes.beq_iff` are the other steps
  the floor takes.
* `exists_denotes_of_lt_ofNat`: what is neither negative nor as large as a count is finite.
* `isFinite_of_mul`, `isFinite_of_add`, `isFinite_of_floor`: what infinity and NaN pass through.
-/

namespace Polyphony.Binary64

open Exact
open Float.Model (Format totalExponent UnpackedFloat)
open Float.Model.UnpackedFloat

variable {x y : ℝ} {u : UnpackedFloat} {a b : Float}

/-! ### Comparisons and signs -/

theorem Denotes.beq_iff (ha : Denotes a x) (hb : Denotes b y) : (a == b) = true ↔ x = y := by
  have hcompare := compare_of_stands ha hb
  have hbeq : (a == b) = (a.toModel.unpack.compare b.toModel.unpack == some .eq) := rfl
  rw [hbeq, hcompare, beq_iff_eq, Option.some.injEq, compare_eq_iff_eq]

theorem Denotes.abs (ha : Denotes a x) : Denotes a.abs |x| := by
  have habs : Stands a.toModel.unpack.abs |x| := by
    unfold Denotes at ha
    obtain ⟨s, hunpack, rfl⟩ | ⟨s, m, e, hm, hunpack, hcanonical, rfl⟩ := ha.cases <;> rw [hunpack]
    · exact abs_zero
    · refine ⟨hcanonical, ?_⟩
      rw [abs_signed, abs_of_nonneg (by positivity)]
      rfl
  show Stands (Float.Model.pack _).unpack _
  rwa [habs.unpack_pack (by rw [abs_abs]; exact ha.abs_lt)]

/-! ### Words -/

/-- A mantissa brought down to the point, or below it already, stands for the same number. -/
theorem decreaseExponent_zero (m : ℕ) (e : ℤ) : (decreaseExponent m e 0).2 ≤ 0 ∧
    ((decreaseExponent m e 0).1 : ℝ) * 2 ^ (decreaseExponent m e 0).2 = m * 2 ^ e := by
  rcases le_total 0 e with he | he
  · obtain ⟨hvalue, hexponent⟩ := decreaseExponent_eq m he
    rw [hexponent]
    exact ⟨le_rfl, hvalue⟩
  · have hnone : decreaseExponent m e 0 = (m, e) := by
      unfold decreaseExponent
      dsimp only
      rw [show (e - 0).toNat = 0 by omega, Nat.shiftLeft_zero, Nat.cast_zero, sub_zero]
    rw [hnone]
    exact ⟨he, rfl⟩

/-- **Shifting all digits behind the point away** leaves the floor of the size. -/
theorem roundToInt_eq (s : Sign) (m : ℕ) (e : ℤ) : roundToInt s m e = s.apply ⌊(m : ℝ) * 2 ^ e⌋ := by
  obtain ⟨M, E, hdecrease⟩ : ∃ M E, decreaseExponent m e 0 = (M, E) := ⟨_, _, rfl⟩
  have hdigits := decreaseExponent_zero m e
  rw [hdecrease] at hdigits
  obtain ⟨hE, hsame⟩ := hdigits
  have hlies := ((lies_exact M).shiftRight (0 - E).toNat).bounds
  have hshift : (M : ℝ) / 2 ^ (0 - E).toNat = m * 2 ^ e := by
    rw [← hsame, ← zpow_natCast, show (((0 - E).toNat : ℕ) : ℤ) = -E by omega, zpow_neg, div_inv_eq_mul]
  rw [hshift] at hlies
  have hfloor : ⌊(m : ℝ) * 2 ^ e⌋ =
      ((ExtendedMantissa.ofMantissaAndAccuracy M .exact >>> (0 - E).toNat).mantissa : ℤ) :=
    Int.floor_eq_iff.2 (by simpa using hlies)
  unfold roundToInt
  rw [hdecrease, hfloor]
  rfl

/-- **The word of a double** is its floor, if it is neither negative nor too large. -/
theorem toNat_toUInt64 (ha : Denotes a x) (h0 : 0 ≤ x) (hx : x < 2 ^ 64) :
    (a.toUInt64.toNat : ℤ) = ⌊x⌋ := by
  have hfits : ⌊x⌋ < 2 ^ 64 := Int.floor_lt.2 (by exact_mod_cast hx)
  have hnonneg : 0 ≤ ⌊x⌋ := Int.floor_nonneg.2 h0
  have hint : a.toModel.unpack.toInt 0 (UInt64.size - 1) = ⌊x⌋ := by
    unfold Denotes at ha
    obtain ⟨s, hunpack, rfl⟩ | ⟨s, m, e, hm, hunpack, -, rfl⟩ := ha.cases <;> rw [hunpack]
    · rw [Int.floor_zero]
      rfl
    · have hpos : (0 : ℝ) < m * 2 ^ e := mul_pos (by exact_mod_cast hm) (two_zpow_pos e)
      cases s
      · exact absurd h0 (not_le.2 (neg_neg_of_pos hpos))
      · exact roundToInt_eq .positive m e
  have hword : a.toUInt64 = UInt64.ofNatClamp (a.toModel.unpack.toInt 0 (UInt64.size - 1)).toNat := rfl
  have hlt : ⌊x⌋.toNat < UInt64.size := by
    show ⌊x⌋.toNat < 2 ^ 64
    omega
  rw [hword, hint, UInt64.ofNatClamp_eq_ofNat _ hlt, UInt64.toNat_ofNat', Nat.mod_eq_of_lt hlt]
  exact Int.toNat_of_nonneg hnonneg

/-! ### What is not finite -/

theorem isFinite_of_unpack_pack (h : (Float.Model.pack u).unpack.isFinite = true) : u.isFinite = true := by
  cases u with
  | notANumber => cases h
  | infinity s => cases s <;> cases h
  | zero s => rfl
  | finite s m e hm => rfl

/-- A factor of what is finite is finite. -/
theorem isFinite_of_mul (h : (a * b).isFinite = true) : a.isFinite = true := by
  have hfactor : ∀ u v, (UnpackedFloat.mul .binary64 u v).isFinite = true → u.isFinite = true := by
    intro u v huv
    cases u with
    | notANumber => cases huv
    | infinity s => cases v <;> cases huv
    | zero s => rfl
    | finite s m e hm => rfl
  exact hfactor _ _ (isFinite_of_unpack_pack h)

/-- A summand of what is finite is finite. -/
theorem isFinite_of_add (h : (a + b).isFinite = true) : a.isFinite = true := by
  have hsummand : ∀ u v, (UnpackedFloat.add .binary64 u v).isFinite = true → u.isFinite = true := by
    intro u v huv
    cases u with
    | notANumber => cases huv
    | infinity s =>
      cases v with
      | infinity s' => cases s <;> cases s' <;> cases huv
      | _ => cases huv
    | zero s => rfl
    | finite s m e hm => rfl
  exact hsummand _ _ (isFinite_of_unpack_pack h)

/-- What is less than something in size is finite. -/
theorem isFinite_of_abs_lt (h : a.abs < b) : a.isFinite = true := by
  have hboundless : ∀ u : UnpackedFloat, u.isFinite = false → IsBoundless u.abs := by
    intro u hu
    cases u with
    | notANumber | infinity s => trivial
    | zero s | finite s m e hm => cases hu
  by_contra hinfinite
  have habs := (hboundless _ (Bool.not_eq_true _ ▸ hinfinite)).unpack_pack
  exact habs.compare_ne_lt _ (lt_iff_compare.1 h)

/-! ### Floors -/

theorem denotes_fiftyTwo : Denotes 4503599627370496.0 (2 ^ 52) :=
  denotes_literal (m := 2 ^ 52) (e := 0) (by norm_num) rfl (by norm_num)

/-- **From `2 ^ 52` on representable numbers are integers.** -/
theorem IsRepresentable.exists_intCast (hx : IsRepresentable x) (h : 2 ^ 52 ≤ |x|) : ∃ n : ℤ, x = n := by
  obtain ⟨n, hn⟩ := hx.exists_eq_mul (e := 0) (by exact_mod_cast h)
  exact ⟨n, by rw [hn, zpow_zero, mul_one]⟩

/-- The whole part of a size below `2 ^ 52`. -/
theorem denotes_whole (ha : Denotes a x) (h0 : 0 ≤ x) (hx : x < 2 ^ 52) :
    Denotes a.toUInt64.toFloat ⌊x⌋ := by
  have hword := toNat_toUInt64 ha h0 (hx.trans (by norm_num))
  have hfits : ⌊x⌋ < 2 ^ 52 := Int.floor_lt.2 (by exact_mod_cast hx)
  have hdouble := denotes_toFloat (w := a.toUInt64) (by omega)
  have hcast : ((a.toUInt64.toNat : ℕ) : ℝ) = ⌊x⌋ := by exact_mod_cast congrArg (Int.cast (R := ℝ)) hword
  rwa [hcast] at hdouble

theorem floor_eq_neg_floor_neg_add_one (h : (⌊-x⌋ : ℝ) ≠ -x) : ⌊x⌋ = -(⌊-x⌋ + 1) := by
  have hlt : (⌊-x⌋ : ℝ) < -x := lt_of_le_of_ne (Int.floor_le _) h
  rw [Int.floor_eq_iff]
  push_cast
  exact ⟨by linarith [Int.lt_floor_add_one (-x)], by linarith⟩

/-- **A sum that needs no rounding.** -/
theorem Denotes.add_exact (ha : Denotes a x) (hb : Denotes b y) (hsum : IsRepresentable (x + y))
    (h : |x + y| < 2 ^ (1024 : ℤ)) : Denotes (a + b) (x + y) := by
  have hexact := rounded_eq_self hsum
  have hadd := ha.add hb (by rwa [hexact])
  rwa [hexact] at hadd

/-- Below zero the whole part of the size is one too small, unless there is nothing behind it. -/
theorem Denotes.floor_of_neg (ha : Denotes a x) (hneg : x < 0) (hx : -x < 2 ^ 52) :
    Denotes (if (-a).toUInt64.toFloat == -a then a else -((-a).toUInt64.toFloat + 1.0)) ⌊x⌋ := by
  have hwhole := denotes_whole ha.neg (neg_nonneg.2 hneg.le) hx
  by_cases hinteger : ((-a).toUInt64.toFloat == -a) = true
  · have heq : (⌊-x⌋ : ℝ) = -x := (hwhole.beq_iff ha.neg).1 hinteger
    have hfloor : (⌊x⌋ : ℝ) = x := by
      rw [show x = ((-⌊-x⌋ : ℤ) : ℝ) by push_cast; linarith, Int.floor_intCast]
    rw [if_pos hinteger, hfloor]
    exact ha
  · have hne : (⌊-x⌋ : ℝ) ≠ -x := mt (hwhole.beq_iff ha.neg).2 hinteger
    have hfits : ⌊-x⌋ < 2 ^ 52 := Int.floor_lt.2 (by exact_mod_cast hx)
    have hnonneg : 0 ≤ ⌊-x⌋ := Int.floor_nonneg.2 (neg_nonneg.2 hneg.le)
    have hnext : IsRepresentable ((⌊-x⌋ + 1 : ℤ) : ℝ) :=
      isRepresentable_intCast (by rw [abs_of_nonneg (by omega)]; omega)
    have hlarge : |((⌊-x⌋ + 1 : ℤ) : ℝ)| < 2 ^ (1024 : ℤ) := by
      rw [abs_of_nonneg (by exact_mod_cast (by omega : (0 : ℤ) ≤ ⌊-x⌋ + 1))]
      calc ((⌊-x⌋ + 1 : ℤ) : ℝ) ≤ 2 ^ (53 : ℤ) := by exact_mod_cast (by omega : ⌊-x⌋ + 1 ≤ 2 ^ 53)
        _ < 2 ^ (1024 : ℤ) := two_zpow_lt (by norm_num)
    push_cast at hnext hlarge
    have hsum := (hwhole.add_exact denotes_one hnext hlarge).neg
    rw [if_neg hinteger, floor_eq_neg_floor_neg_add_one hne]
    push_cast
    exact hsum

/-- **The floor of a double** is that of the number it stands for. -/
theorem Denotes.floor (ha : Denotes a x) : Denotes (floor a) ⌊x⌋ := by
  unfold Binary64.floor
  by_cases hsmall : a.abs < 4503599627370496.0
  · have hx : |x| < 2 ^ 52 := (ha.abs.lt_iff denotes_fiftyTwo).1 hsmall
    rw [if_pos hsmall]
    by_cases hneg : a < 0.0
    · have hx0 : x < 0 := (ha.lt_iff denotes_nothing).1 hneg
      rw [if_pos hneg]
      exact ha.floor_of_neg hx0 (by rwa [abs_of_neg hx0] at hx)
    · have hx0 : 0 ≤ x := not_lt.1 (mt (ha.lt_iff denotes_nothing).2 hneg)
      rw [if_neg hneg]
      by_cases heq : (a == 0.0) = true
      · obtain rfl : x = 0 := (ha.beq_iff denotes_nothing).1 heq
        rw [if_pos heq, Int.floor_zero, Int.cast_zero]
        exact ha
      · rw [if_neg heq]
        exact denotes_whole ha hx0 (by rwa [abs_of_nonneg hx0] at hx)
  · have hlarge : 2 ^ 52 ≤ |x| := not_lt.1 (mt (ha.abs.lt_iff denotes_fiftyTwo).2 hsmall)
    obtain ⟨n, rfl⟩ := ha.isRepresentable.exists_intCast hlarge
    rw [if_neg hsmall, Int.floor_intCast]
    exact ha

/-- What has a finite floor is finite. -/
theorem isFinite_of_floor (h : (floor a).isFinite = true) : a.isFinite = true := by
  by_contra hinfinite
  unfold Binary64.floor at h
  rw [if_neg fun hlt => hinfinite (isFinite_of_abs_lt hlt)] at h
  exact hinfinite h

/-! ### Counts -/

/-- A count is shifted up by 53 digits and rounded. -/
theorem ofScientific_eq {n : ℕ} (hn : n ≠ 0) : UnpackedFloat.ofScientific .binary64 n 0 =
    roundWithAccuracy .binary64 (.positive * .positive) (n * 2 ^ 53) (-53 + 0) .exact := by
  have hlow : ¬ (0 : ℤ) < -((2 ^ Format.exponentBits .binary64 : ℤ) + n.log2) := by
    have : (0 : ℤ) < 2 ^ Format.exponentBits .binary64 := by positivity
    omega
  have hshift : n * 2 ^ 53 = n <<< 53 * 10 ^ 0 := by rw [pow_zero, mul_one, Nat.shiftLeft_eq]
  unfold UnpackedFloat.ofScientific
  rw [dif_neg hn, if_neg (by decide), if_neg hlow, if_pos le_rfl, hshift]
  rfl

theorem stands_ofScientific {n : ℕ} (hn : n ≠ 0) :
    Stands (UnpackedFloat.ofScientific .binary64 n 0) (rounded n) := by
  have hvalue : ((n * 2 ^ 53 : ℕ) : ℝ) * 2 ^ (-53 + 0 : ℤ) = n := by
    have hdigits : ((2 ^ 53 : ℕ) : ℝ) * 2 ^ (-53 + 0 : ℤ) = 1 := by norm_num
    rw [Nat.cast_mul, mul_assoc, hdigits, mul_one]
  have hplace : (-53 + 0 : ℤ) ≤ target (n * 2 ^ 53) (-53 + 0) := by
    have hlog := (Nat.le_log2 (n := n * 2 ^ 53) (k := 53) (by omega)).2 (by omega)
    rw [target_eq]
    omega
  have hround := stands_roundWithAccuracy_exact (by omega) hplace .positive
  rw [hvalue] at hround
  rw [ofScientific_eq hn]
  exact hround

/-- **The double of a count**: the count, rounded, or infinity if it is too large. -/
theorem ofNat_cases (n : ℕ) : Denotes (Float.ofNat n) (rounded n) ∨
    (Float.ofNat n).toModel.unpack = .infinity .positive ∧ 2 ^ (1024 : ℤ) ≤ rounded n := by
  have hnonneg : 0 ≤ rounded n := rounded_nonneg (Nat.cast_nonneg n)
  by_cases hsmall : n < 2 ^ 53
  · left
    rw [rounded_eq_self (isRepresentable_natCast hsmall.le)]
    exact denotes_ofNat hsmall
  · have hstands := stands_ofScientific (n := n) (by omega)
    have hmodel : (Float.ofNat n).toModel = Float.Model.pack (UnpackedFloat.ofScientific .binary64 n 0) := by
      show (Float.ofScientific n false 0).toModel = _
      unfold Float.ofScientific
      rw [dif_neg (by omega)]
      rfl
    rcases lt_or_ge |rounded (n : ℝ)| (2 ^ (1024 : ℤ)) with hlt | hge
    · left
      unfold Denotes
      rwa [hmodel, hstands.unpack_pack hlt]
    · right
      rw [abs_of_nonneg hnonneg] at hge
      rw [hmodel]
      exact ⟨hstands.unpack_pack_of_large hge, hge⟩

/-- **Less than the double of a count is less than the count.** -/
theorem Denotes.lt_of_lt_ofNat (ha : Denotes a x) {n : ℕ} (h : a < Float.ofNat n) : x < n := by
  by_contra! hle
  have hrounded : rounded n ≤ x := rounded_le ha.isRepresentable hle
  rcases ofNat_cases n with hcount | ⟨-, hlarge⟩
  · exact absurd ((ha.lt_iff hcount).1 h) (not_lt.2 hrounded)
  · exact absurd (hlarge.trans hrounded) (not_le.2 ha.lt_limit)

/-- **What is below a count and not below zero** is finite, and its number is below the count. -/
theorem exists_denotes_of_lt_ofNat {n : ℕ} (h0 : 0.0 ≤ a) (h : a < Float.ofNat n) :
    ∃ x, Denotes a x ∧ 0 ≤ x ∧ x < n := by
  rcases not_lt_zero_cases fun hneg => not_le_of_lt hneg h0 with hboundless | ⟨x, hx, ha⟩
  · exact absurd (lt_iff_compare.1 h) (hboundless.compare_ne_lt _)
  · exact ⟨x, ha, hx, ha.lt_of_lt_ofNat h⟩

/-- The natural number below a double. -/
theorem Denotes.toNat_eq (ha : Denotes a x) : Scalar.toNat a = ⌊x⌋.toNat := by
  have hfloor := ha.floor
  have hint : toInt? (Binary64.floor a) = .ok ⌊x⌋ := by
    rw [toInt?_of_isFinite hfloor.isFinite, hfloor.integerPart_eq, towardZero_intCast]
  have hpart : Scalar.toInt? (Scalar.floor a) = .ok ⌊x⌋ := hint
  unfold Scalar.toNat
  rw [hpart]

end Polyphony.Binary64
