import Polyphony.Proofs.Binary64.Unpacked
import Polyphony.Scalar

/-!
# The numbers that doubles stand for

A finite double stands for a real number, and the operations on doubles are those on the reals, rounded, as
long as nothing is too large.

* `Denotes`: **the real number that a double stands for.**
* `Denotes.add`, `Denotes.sub`, `Denotes.mul`, `Denotes.div`, `Denotes.neg`: the operations.
* `Denotes.lt_iff`, `Denotes.le_iff`: comparisons.
* `Denotes.integerPart_eq`: the integer part.
* `denotes_toFloat`, `denotes_ofNat`: small integers are doubles.
-/

namespace Polyphony.Binary64

open Exact
open Float.Model (Format totalExponent UnpackedFloat)
open Float.Model.UnpackedFloat

variable {m : ℕ} {e : ℤ} {x y : ℝ} {u v : UnpackedFloat}

/-! ### Packing -/

theorem implicit_append (f : BitVec 52) : (1#1 ++ f).toNat = 2 ^ 52 + f.toNat := by
  have hor := Nat.shiftLeft_add_eq_or_of_lt f.isLt 1
  rw [BitVec.toNat_append]
  exact hor.symm

/-- A number with an exponent field is read with its first digit. -/
theorem unpack_normal {biased : ℕ} (hpos : 0 < biased) (hlt : biased < 2047) (hlow : 2 ^ 52 ≤ m)
    (hhigh : m < 2 ^ 53) (s : Sign) :
    unpack .binary64 (packComponents .binary64 s (BitVec.ofNat 11 biased) (BitVec.ofNat 52 m)) =
      .finite s m (biased - 1075) (by omega) := by
  have hexponent : (BitVec.ofNat 11 biased).toNat = biased := by
    rw [BitVec.toNat_ofNat, Nat.mod_eq_of_lt (by omega)]
  have hmantissa : (1#1 ++ BitVec.ofNat 52 m).toNat = m := by
    rw [implicit_append, BitVec.toNat_ofNat]
    omega
  have hall : BitVec.ofNat 11 biased ≠ -1#11 := by
    intro h
    have := congrArg BitVec.toNat h
    rw [hexponent] at this
    change biased = 2047 at this
    omega
  have hzero : BitVec.ofNat 11 biased ≠ 0#11 := by
    intro h
    have := congrArg BitVec.toNat h
    rw [hexponent] at this
    change biased = 0 at this
    omega
  unfold unpack
  simp only [unpackMantissa_packComponents, unpackExponent_packComponents, unpackSign_packComponents,
    Sign.ofBitVec_toBitVec, hexponent, hmantissa]
  rw [if_neg hall, if_neg hzero]
  rfl

/-- A number without an exponent field is read as it is. -/
theorem unpack_subnormal (hpos : 0 < m) (hlt : m < 2 ^ 52) (s : Sign) :
    unpack .binary64 (packComponents .binary64 s 0#11 (BitVec.ofNat 52 m)) = .finite s m (-1074) hpos := by
  have hmantissa : (BitVec.ofNat 52 m).toNat = m := by
    rw [BitVec.toNat_ofNat, Nat.mod_eq_of_lt hlt]
  have hzero : BitVec.ofNat 52 m ≠ 0#52 := by
    intro h
    have := congrArg BitVec.toNat h
    rw [hmantissa] at this
    exact hpos.ne' this
  unfold unpack
  simp only [unpackMantissa_packComponents, unpackExponent_packComponents, unpackSign_packComponents,
    Sign.ofBitVec_toBitVec, hmantissa]
  rw [if_neg (by decide), if_pos trivial, dif_neg hzero]
  rfl

theorem pack_finite (hle : -1074 ≤ e) (hm : 0 < m) (s : Sign) :
    UnpackedFloat.pack .binary64 (.finite s m e hm) =
      if 971 < e then packedInfinity .binary64 s
      else if m.log2 = 52 then
        packComponents .binary64 s (BitVec.ofNat 11 (e + 1075).toNat) (BitVec.ofNat 52 m)
      else packComponents .binary64 s 0#11 (BitVec.ofNat 52 m) := by
  have hbiased : (e + (Format.exponentBias .binary64 : ℕ) + (52 : ℕ)).toNat = (e + 1075).toNat := by
    show (e + (1023 : ℕ) + (52 : ℕ)).toNat = _
    omega
  have hover : 2 ^ 11 ≤ (e + 1075).toNat + 1 ↔ 971 < e := by omega
  have hfull : m.log2 + 1 = Format.mantissaBits .binary64 ↔ m.log2 = 52 := by
    show m.log2 + 1 = 53 ↔ _
    omega
  unfold UnpackedFloat.pack
  simp only [hbiased, hover, hfull]

/-- **Packing a number and unpacking it** changes nothing, if it is not too large. -/
theorem unpack_pack_finite (h : IsCanonical m e) (he : e ≤ 971) (hm : 0 < m) (s : Sign) :
    unpack .binary64 (UnpackedFloat.pack .binary64 (.finite s m e hm)) = .finite s m e hm := by
  have hle := h.le
  rw [pack_finite h.le hm, if_neg (by omega)]
  split_ifs with hfull
  · have hlow : 2 ^ 52 ≤ m := hfull ▸ Nat.log2_self_le hm.ne'
    rw [unpack_normal (by omega) (by omega) hlow h.lt]
    congr 1
    omega
  · have hlog := (Nat.log2_lt hm.ne').2 h.lt
    have hlt : m < 2 ^ 52 := (Nat.log2_lt hm.ne').1 (by omega)
    obtain rfl : e = -1074 := h.normal.resolve_left (by omega)
    exact unpack_subnormal hm hlt s

theorem unpack_pack_infinite (he : 971 < e) (hm : 0 < m) (s : Sign) :
    unpack .binary64 (UnpackedFloat.pack .binary64 (.finite s m e hm)) = .infinity s := by
  rw [pack_finite (by omega) hm, if_pos he, packedInfinity]
  unfold unpack
  simp only [unpackMantissa_packComponents, unpackExponent_packComponents, unpackSign_packComponents,
    Sign.ofBitVec_toBitVec]
  rfl

/-- **What is unpacked** has 53 digits, or fewer at the least exponent, and is not too large. -/
theorem isCanonical_unpack {x : Float.Model} {s : Sign} {hm : 0 < m} (h : x.unpack = .finite s m e hm) :
    IsCanonical m e ∧ e ≤ 971 := by
  have hbias : ((Format.exponentBias .binary64 : ℕ) : ℤ) + ((52 : ℕ) : ℤ) = 1075 := rfl
  have hfraction : (@unpackMantissa .binary64 x.toBits.toBitVec).toNat < 2 ^ 52 := BitVec.isLt _
  have hexponent : (@unpackExponent .binary64 x.toBits.toBitVec).toNat < 2048 := BitVec.isLt _
  unfold Float.Model.unpack unpack at h
  simp only [hbias] at h
  split at h
  · split at h <;> cases h
  · rename_i hall
    have hlast : (@unpackExponent .binary64 x.toBits.toBitVec).toNat ≠ 2047 := fun h =>
      hall (BitVec.eq_of_toNat_eq h)
    split at h
    · rename_i hzero
      split at h
      · cases h
      · injection h with _ hmantissa he
        rw [hzero] at he
        change (0 : ℤ) - 1075 + 1 = e at he
        exact ⟨⟨by omega, by omega, .inr (by omega)⟩, by omega⟩
    · rename_i hzero
      have hfirst : (@unpackExponent .binary64 x.toBits.toBitVec).toNat ≠ 0 := fun h =>
        hzero (BitVec.eq_of_toNat_eq h)
      injection h with _ hmantissa he
      have hdigits := implicit_append (@unpackMantissa .binary64 x.toBits.toBitVec)
      rw [hmantissa] at hdigits
      exact ⟨⟨by omega, by omega, .inl (by omega)⟩, by omega⟩

/-! ### The number that is stood for -/

/-- **The real number that a double stands for**, if it is finite. -/
def Denotes (a : Float) (x : ℝ) : Prop := Stands a.toModel.unpack x

variable {a b : Float}

theorem denotes_of_unpack {s : Sign} (hm : 0 < m) (h : a.toModel.unpack = .finite s m e hm) :
    Denotes a (signed s (m * 2 ^ e)) := by
  rw [Denotes, h]
  exact ⟨(isCanonical_unpack h).1, rfl⟩

/-- A positive literal, from its digits. -/
theorem denotes_literal (hm : 0 < m) (h : a.toModel.unpack = .finite .positive m e hm)
    (hx : (m : ℝ) * 2 ^ e = x) : Denotes a x := by
  rw [← hx]
  exact denotes_of_unpack hm h

theorem denotes_zero {s : Sign} (h : a.toModel.unpack = .zero s) : Denotes a 0 := by
  rw [Denotes, h]
  rfl

theorem exists_denotes (h : a.isFinite = true) : ∃ x, Denotes a x := by
  change a.toModel.unpack.isFinite = true at h
  cases hunpack : a.toModel.unpack with
  | infinity s => rw [hunpack] at h; cases h
  | notANumber => rw [hunpack] at h; cases h
  | zero s => exact ⟨0, denotes_zero hunpack⟩
  | finite s m e hm => exact ⟨_, denotes_of_unpack _ hunpack⟩

theorem Stands.lt_of_exponent {s : Sign} {hm : 0 < m} (h : Stands (.finite s m e hm) x) (he : e ≤ 971) :
    |x| < 2 ^ (1024 : ℤ) := by
  obtain ⟨hcanonical, rfl⟩ := h
  rw [abs_signed, abs_of_nonneg (by positivity)]
  calc (m : ℝ) * 2 ^ e < 2 ^ (53 : ℤ) * 2 ^ e :=
        mul_lt_mul_of_pos_right (by exact_mod_cast hcanonical.lt) (two_zpow_pos e)
    _ = 2 ^ (53 + e) := (two_zpow_add _ _).symm
    _ ≤ 2 ^ (1024 : ℤ) := two_zpow_le (by omega)

theorem Stands.exponent_of_lt {s : Sign} {hm : 0 < m} (h : Stands (.finite s m e hm) x)
    (hx : |x| < 2 ^ (1024 : ℤ)) : e ≤ 971 := by
  obtain ⟨hcanonical, rfl⟩ := h
  rw [abs_signed, abs_of_nonneg (by positivity)] at hx
  by_contra! hlarge
  have hnormal : 2 ^ 52 ≤ m := hcanonical.normal.resolve_right (by omega)
  have : (2 : ℝ) ^ (1024 : ℤ) ≤ m * 2 ^ e :=
    calc (2 : ℝ) ^ (1024 : ℤ) ≤ 2 ^ (52 + e) := two_zpow_le (by omega)
      _ = 2 ^ (52 : ℤ) * 2 ^ e := two_zpow_add _ _
      _ ≤ m * 2 ^ e := mul_le_mul_of_nonneg_right (by exact_mod_cast hnormal) (two_zpow_pos e).le
  linarith

/-- **What is not too large is packed as it is.** -/
theorem Stands.unpack_pack (h : Stands u x) (hx : |x| < 2 ^ (1024 : ℤ)) :
    (Float.Model.pack u).unpack = u := by
  obtain ⟨s, rfl, rfl⟩ | ⟨s, m, e, hm, rfl, hcanonical, hvalue⟩ := h.cases
  · cases s <;> rfl
  · exact unpack_pack_finite hcanonical (h.exponent_of_lt hx) hm s

/-- **What is too large is packed as an infinity** of its sign. -/
theorem Stands.exists_unpack_pack (h : Stands u x) (hx : 2 ^ (1024 : ℤ) ≤ |x|) :
    ∃ s, (Float.Model.pack u).unpack = .infinity s ∧ x = signed s |x| := by
  obtain ⟨s, rfl, rfl⟩ | ⟨s, m, e, hm, rfl, hcanonical, hvalue⟩ := h.cases
  · rw [abs_zero] at hx
    exact absurd (two_zpow_pos _) (not_lt.2 hx)
  · have hlarge : 971 < e := by
      by_contra! hle
      exact absurd (h.lt_of_exponent hle) (not_lt.2 hx)
    refine ⟨s, unpack_pack_infinite hlarge hm s, ?_⟩
    rw [hvalue, abs_signed, abs_of_nonneg (by positivity)]

/-- What is too large, and not negative, is packed as infinity. -/
theorem Stands.unpack_pack_of_large (h : Stands u x) (hx : 2 ^ (1024 : ℤ) ≤ x) :
    (Float.Model.pack u).unpack = .infinity .positive := by
  have hpos : 0 < x := (two_zpow_pos _).trans_le hx
  obtain ⟨s, hinfinity, hsign⟩ := h.exists_unpack_pack (hx.trans (le_abs_self x))
  cases s with
  | positive => exact hinfinity
  | negative =>
    have hneg : x = -|x| := hsign
    exact absurd hpos (not_lt.2 (hneg ▸ neg_nonpos.2 (abs_nonneg _)))

theorem lt_iff_compare : a < b ↔ a.toModel.unpack.compare b.toModel.unpack = some .lt :=
  decide_eq_true_iff.trans beq_iff_eq

namespace Denotes

theorem isRepresentable (h : Denotes a x) : IsRepresentable x := Stands.isRepresentable h

theorem abs_lt (h : Denotes a x) : |x| < 2 ^ (1024 : ℤ) := by
  unfold Denotes at h
  obtain ⟨s, hunpack, rfl⟩ | ⟨s, m, e, hm, hunpack, hcanonical, hvalue⟩ := h.cases
  · rw [abs_zero]
    exact two_zpow_pos _
  · rw [hunpack] at h
    exact h.lt_of_exponent (isCanonical_unpack hunpack).2

theorem lt_limit (h : Denotes a x) : x < 2 ^ (1024 : ℤ) :=
  (le_abs_self x).trans_lt h.abs_lt

/-! ### Operations -/

/-- **Sums of doubles.** -/
theorem add (ha : Denotes a x) (hb : Denotes b y) (h : |rounded (x + y)| < 2 ^ (1024 : ℤ)) :
    Denotes (a + b) (rounded (x + y)) := by
  have hsum := stands_add ha hb
  show Stands (Float.Model.pack _).unpack _
  rwa [hsum.unpack_pack h]

/-- **Differences of doubles.** -/
theorem sub (ha : Denotes a x) (hb : Denotes b y) (h : |rounded (x - y)| < 2 ^ (1024 : ℤ)) :
    Denotes (a - b) (rounded (x - y)) := by
  have hdifference := stands_sub ha hb
  show Stands (Float.Model.pack _).unpack _
  rwa [hdifference.unpack_pack h]

/-- **Products of doubles.** -/
theorem mul (ha : Denotes a x) (hb : Denotes b y) (h : |rounded (x * y)| < 2 ^ (1024 : ℤ)) :
    Denotes (a * b) (rounded (x * y)) := by
  have hproduct := stands_mul ha hb
  show Stands (Float.Model.pack _).unpack _
  rwa [hproduct.unpack_pack h]

/-- **Quotients of doubles.** -/
theorem div (ha : Denotes a x) (hb : Denotes b y) (hy : y ≠ 0)
    (h : |rounded (x / y)| < 2 ^ (1024 : ℤ)) : Denotes (a / b) (rounded (x / y)) := by
  have hquotient := stands_div ha hb hy
  show Stands (Float.Model.pack _).unpack _
  rwa [hquotient.unpack_pack h]

theorem neg (ha : Denotes a x) : Denotes (-a) (-x) := by
  have hneg := Stands.neg ha
  show Stands (Float.Model.pack _).unpack _
  rwa [hneg.unpack_pack (by rw [abs_neg]; exact ha.abs_lt)]

/-! ### Comparisons -/

/-- **Doubles are ordered as the numbers are that they stand for.** -/
theorem lt_iff (ha : Denotes a x) (hb : Denotes b y) : a < b ↔ x < y := by
  have hcompare := compare_of_stands ha hb
  rw [lt_iff_compare, hcompare, Option.some.injEq, compare_lt_iff_lt]

theorem le_iff (ha : Denotes a x) (hb : Denotes b y) : a ≤ b ↔ x ≤ y := by
  have hcompare := compare_of_stands ha hb
  have hle : a ≤ b ↔ (a.toModel.unpack.compare b.toModel.unpack).any (·.isLE) = true :=
    decide_eq_true_iff
  rw [hle, hcompare, Option.any_some, Ordering.isLE_iff_ne_gt, compare_gt_iff_gt, not_lt]

end Denotes

/-! ### Integer parts -/

theorem exponentField_eq (a : Float) :
    exponentField a = (@unpackExponent .binary64 a.toModel.toBits.toBitVec).toNat := by
  unfold unpackExponent
  rw [BitVec.toNat_cast, BitVec.extractLsb_toNat, Nat.shiftRight_eq_div_pow]
  rfl

theorem fractionField_eq (a : Float) :
    fractionField a = (@unpackMantissa .binary64 a.toModel.toBits.toBitVec).toNat := by
  unfold unpackMantissa
  rw [BitVec.toNat_cast, BitVec.extractLsb_toNat, Nat.shiftRight_zero]
  rfl

theorem isNegative_eq (a : Float) {s : Sign}
    (h : Sign.ofBitVec (@unpackSign .binary64 a.toModel.toBits.toBitVec) = s) :
    isNegative a = (s == .negative) := by
  have hbit : (@unpackSign .binary64 a.toModel.toBits.toBitVec).toNat = a.toBits.toNat / 2 ^ 63 := by
    have hlt := a.toBits.toNat_lt
    unfold unpackSign
    rw [BitVec.toNat_cast, BitVec.extractLsb_toNat, Nat.shiftRight_eq_div_pow]
    show a.toBits.toNat / 2 ^ 63 % 2 = _
    omega
  have hnegative : isNegative a = (a.toBits.toNat / 2 ^ 63 == 1) := rfl
  rw [hnegative, ← hbit, ← h]
  generalize @unpackSign .binary64 a.toModel.toBits.toBitVec = bit
  revert bit
  decide

/-- **The size of a double**, read from its fields, is mantissa and exponent. -/
theorem magnitude_eq {a : Float} {s : Sign} {hm : 0 < m} (h : a.toModel.unpack = .finite s m e hm) :
    magnitude a = ⟨m, e⟩ ∧ isNegative a = (s == .negative) := by
  have hbias : ((Format.exponentBias .binary64 : ℕ) : ℤ) + ((52 : ℕ) : ℤ) = 1075 := rfl
  unfold magnitude
  rw [exponentField_eq, fractionField_eq]
  unfold Float.Model.unpack unpack at h
  simp only [hbias] at h
  split at h
  · split at h <;> cases h
  · split at h
    · rename_i hzero
      split at h
      · cases h
      · injection h with hsign hmantissa he
        refine ⟨?_, isNegative_eq a hsign⟩
        rw [hzero] at he ⊢
        rw [if_pos (show (0#11).toNat = 0 from rfl), hmantissa, ← he]
        rfl
    · rename_i hzero
      have hfirst : (@unpackExponent .binary64 a.toModel.toBits.toBitVec).toNat ≠ 0 := fun h =>
        hzero (BitVec.eq_of_toNat_eq h)
      injection h with hsign hmantissa he
      refine ⟨?_, isNegative_eq a hsign⟩
      rw [if_neg hfirst, he, ← hmantissa, implicit_append]
      rfl

theorem magnitude_zero {a : Float} {s : Sign} (h : a.toModel.unpack = .zero s) :
    (magnitude a).significand = 0 := by
  unfold magnitude
  rw [exponentField_eq, fractionField_eq]
  unfold Float.Model.unpack unpack at h
  dsimp only at h
  split at h
  · split at h <;> cases h
  · split at h
    · rename_i hzero
      split at h
      · rename_i hfraction
        rw [hzero, hfraction]
        rfl
      · cases h
    · cases h

/-- The digits before the point are the floor of the size. -/
theorem integerPart_eq_floor (m : ℕ) (e : ℤ) :
    ((Magnitude.integerPart ⟨m, e⟩ : ℕ) : ℤ) = ⌊(m : ℝ) * 2 ^ e⌋ := by
  cases e with
  | ofNat q =>
    have hwhole : (m : ℝ) * 2 ^ (Int.ofNat q) = ((m * 2 ^ q : ℕ) : ℤ) := by
      push_cast
      rfl
    rw [hwhole, Int.floor_intCast]
    rfl
  | negSucc q =>
    have hquotient : (m : ℝ) * 2 ^ (Int.negSucc q) = m / (2 ^ (q + 1) : ℕ) := by
      rw [zpow_negSucc, ← div_eq_mul_inv]
      push_cast
      rfl
    rw [hquotient, Int.floor_div_natCast, Int.floor_natCast]
    rfl

theorem integerPart_of_significand_zero {q : Magnitude} (h : q.significand = 0) : q.integerPart = 0 := by
  unfold Magnitude.integerPart
  cases q.exponent with
  | ofNat k => simp only [h, Nat.zero_mul]
  | negSucc k => simp only [h, Nat.zero_div]

/-- **The integer part of a double** is that of the number it stands for, toward zero. -/
theorem Denotes.integerPart_eq (h : Denotes a x) : integerPart a = towardZero x := by
  unfold Denotes at h
  unfold integerPart towardZero
  obtain ⟨s, hunpack, rfl⟩ | ⟨s, m, e, hm, hunpack, -, rfl⟩ := h.cases
  · rw [integerPart_of_significand_zero (magnitude_zero hunpack)]
    simp
  · obtain ⟨hmagnitude, hsign⟩ := magnitude_eq hunpack
    have hpos : (0 : ℝ) < m * 2 ^ e := mul_pos (by exact_mod_cast hm) (two_zpow_pos e)
    rw [hmagnitude, hsign, integerPart_eq_floor]
    cases s
    · show -⌊(m : ℝ) * 2 ^ e⌋ = if 0 ≤ -((m : ℝ) * 2 ^ e) then _ else ⌈-((m : ℝ) * 2 ^ e)⌉
      rw [if_neg (by linarith), Int.ceil_neg]
    · show ⌊(m : ℝ) * 2 ^ e⌋ = if 0 ≤ (m : ℝ) * 2 ^ e then ⌊(m : ℝ) * 2 ^ e⌋ else _
      rw [if_pos hpos.le]

theorem Denotes.isFinite (h : Denotes a x) : a.isFinite = true := by
  unfold Denotes at h
  show a.toModel.unpack.isFinite = true
  obtain ⟨s, hunpack, -⟩ | ⟨s, m, e, hm, hunpack, -⟩ := h.cases <;> rw [hunpack] <;> rfl

/-! ### Integers -/

theorem denotes_nothing : Denotes 0.0 0 := denotes_zero (s := .positive) rfl

theorem denotes_one : Denotes 1.0 1 :=
  denotes_literal (m := 2 ^ 52) (e := -52) (by norm_num) rfl (by norm_num)

theorem denotes_two : Denotes 2.0 2 :=
  denotes_literal (m := 2 ^ 52) (e := -51) (by norm_num) rfl (by norm_num)

theorem natCast_lt_limit {n : ℕ} (h : n ≤ 2 ^ 53) : |(n : ℝ)| < 2 ^ (1024 : ℤ) := by
  rw [abs_of_nonneg (Nat.cast_nonneg n)]
  calc (n : ℝ) ≤ 2 ^ (53 : ℤ) := by exact_mod_cast h
    _ < 2 ^ (1024 : ℤ) := two_zpow_lt (by norm_num)

/-- **The double of a word** of at most 53 digits. -/
theorem denotes_toFloat {w : UInt64} (h : w.toNat ≤ 2 ^ 53) : Denotes w.toFloat w.toNat := by
  have hexact : rounded (w.toNat : ℝ) = w.toNat := rounded_eq_self (isRepresentable_natCast h)
  have hnormalize := stands_normalize w.toNat 0 .positive
  rw [zpow_zero, mul_one, Int.cast_natCast, hexact] at hnormalize
  show Stands (Float.Model.pack (UnpackedFloat.normalize .binary64 (w.toNat : ℤ) 0 .positive)).unpack _
  rwa [hnormalize.unpack_pack (natCast_lt_limit h)]

/-- **Small integers are doubles.** -/
theorem denotes_ofNat {n : ℕ} (h : n < 2 ^ 53) : Denotes (Float.ofNat n) n := by
  have hexact : rounded (n : ℝ) = n := rounded_eq_self (isRepresentable_natCast h.le)
  have hsame : n.toUInt64.toNat = n := by
    have : n.toUInt64.toNat = n % 2 ^ 64 := rfl
    omega
  have hword : Denotes n.toUInt64.toFloat n := by
    have hdouble := denotes_toFloat (w := n.toUInt64) (by omega)
    rwa [hsame] at hdouble
  have hone : Denotes (Float.ofBits 0x3FF0000000000000) 1 :=
    denotes_literal (m := 2 ^ 52) (e := -52) (by norm_num) rfl (by norm_num)
  have hproduct := hword.mul hone (by rw [mul_one, hexact]; exact natCast_lt_limit h.le)
  rw [mul_one, hexact] at hproduct
  have hfast : Float.ofNat n = n.toUInt64.toFloat * Float.ofBits 0x3FF0000000000000 := by
    show Float.ofScientific n false 0 = _
    unfold Float.ofScientific
    rw [dif_pos ⟨h, by norm_num⟩]
    rfl
  rw [hfast]
  exact hproduct

end Polyphony.Binary64
