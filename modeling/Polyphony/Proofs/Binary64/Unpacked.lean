import Mathlib
import Polyphony.Proofs.Binary64.Rounding

/-!
# Doubles, unpacked

An unpacked double is a sign, a natural mantissa and an exponent, or one of the numbers without them. The
operations shift mantissas and keep account of what is shifted out. Here it is shown that what they compute
is the exact result, rounded.

* `Lies`: what a mantissa and the account of the digits behind it tell about a number.
* `Stands`: the real number that an unpacked double stands for.
* `stands_roundWithAccuracy`: **shifting and rounding mantissas is rounding** in the sense of `rounded`.
* `stands_add`, `stands_sub`, `stands_mul`, `stands_div`, `stands_normalize`: the operations.
* `compare_of_stands`: the order.
-/

namespace Polyphony.Binary64

open Exact
open Float.Model (Format totalExponent UnpackedFloat)
open Float.Model.UnpackedFloat

/-! ### Digits behind the mantissa -/

/-- Where a number lies between a mantissa and the next one: the round bit tells the half, the sticky bit
whether anything is behind it. -/
def Lies (em : ExtendedMantissa) (x : ℝ) : Prop :=
  match em.roundBit, em.stickyBit with
  | false, false => x = em.mantissa
  | false, true => (em.mantissa : ℝ) < x ∧ x < em.mantissa + 1 / 2
  | true, false => x = em.mantissa + 1 / 2
  | true, true => (em.mantissa : ℝ) + 1 / 2 < x ∧ x < em.mantissa + 1

variable {em : ExtendedMantissa} {x y : ℝ} {m : ℕ} {e : ℤ}

theorem lies_exact (m : ℕ) : Lies (.ofMantissaAndAccuracy m .exact) m := rfl

/-- What is left of a division tells where the quotient lies. -/
theorem lies_quotient (m : ℕ) {d : ℕ} (hd : 0 < d) :
    Lies (.ofMantissaAndAccuracy (m / d) (accuracyOfFraction (m % d) d)) (m / d : ℝ) := by
  have hd' : (0 : ℝ) < d := by exact_mod_cast hd
  have hdivmod : (d : ℝ) * (m / d : ℕ) + (m % d : ℕ) = m := by exact_mod_cast Nat.div_add_mod m d
  have hquotient : (m : ℝ) / d = (m / d : ℕ) + (m % d : ℕ) / d := by
    rw [← hdivmod, add_div, mul_div_cancel_left₀ _ hd'.ne']
  have hrest : ((m % d : ℕ) : ℝ) / d < 1 := by
    rw [div_lt_one hd']
    exact_mod_cast Nat.mod_lt m hd
  rw [hquotient]
  unfold accuracyOfFraction
  split
  · rename_i hzero
    show ((m / d : ℕ) : ℝ) + _ = (m / d : ℕ)
    rw [hzero, Nat.cast_zero, zero_div, add_zero]
  · rename_i hzero
    have hpos : (0 : ℝ) < (m % d : ℕ) / d := div_pos (by exact_mod_cast Nat.pos_of_ne_zero hzero) hd'
    cases hcompare : compare (2 * (m % d)) d with
    | lt =>
      have hhalf : ((m % d : ℕ) : ℝ) / d < 1 / 2 := by
        rw [div_lt_div_iff₀ hd' two_pos, mul_comm, one_mul]
        exact_mod_cast Nat.compare_eq_lt.1 hcompare
      exact ⟨lt_add_of_pos_right _ hpos, (add_lt_add_iff_left _).2 hhalf⟩
    | eq =>
      have hhalf : ((m % d : ℕ) : ℝ) / d = 1 / 2 := by
        rw [div_eq_div_iff hd'.ne' two_ne_zero, mul_comm, one_mul]
        exact_mod_cast Nat.compare_eq_eq.1 hcompare
      show ((m / d : ℕ) : ℝ) + _ = (m / d : ℕ) + 1 / 2
      rw [hhalf]
    | gt =>
      have hhalf : 1 / 2 < ((m % d : ℕ) : ℝ) / d := by
        rw [div_lt_div_iff₀ two_pos hd', mul_comm _ (2 : ℝ), one_mul]
        exact_mod_cast Nat.compare_eq_gt.1 hcompare
      exact ⟨(add_lt_add_iff_left _).2 hhalf, (add_lt_add_iff_left _).2 hrest⟩

namespace Lies

theorem bounds (h : Lies em x) : (em.mantissa : ℝ) ≤ x ∧ x < em.mantissa + 1 := by
  obtain ⟨mantissa, roundBit, stickyBit⟩ := em
  cases roundBit <;> cases stickyBit
  · exact ⟨h.ge, by rw [show x = mantissa from h]; linarith⟩
  · exact ⟨h.1.le, by linarith [h.2]⟩
  · rw [show x = mantissa + 1 / 2 from h]
    exact ⟨by linarith, by linarith⟩
  · exact ⟨by linarith [h.1], h.2⟩

/-- **Rounding by the two bits is rounding to the nearest integer.** -/
theorem roundedMantissa (h : Lies em x) : (em.roundedMantissa : ℤ) = nearest x := by
  obtain ⟨mantissa, roundBit, stickyBit⟩ := em
  have hbounds := h.bounds
  have hfloor : ⌊x⌋ = mantissa := Int.floor_eq_iff.2 (by simpa using hbounds)
  have hfract : Int.fract x = x - mantissa := by rw [Int.fract, hfloor, Int.cast_natCast]
  unfold nearest
  rw [hfract, hfloor]
  cases roundBit <;> cases stickyBit
  · rw [if_pos (by rw [show x = mantissa from h]; norm_num)]
    rfl
  · rw [if_pos (by linarith [h.2])]
    rfl
  · have hhalf : x - mantissa = 1 / 2 := by rw [show x = mantissa + 1 / 2 from h]; ring
    rw [if_neg (by rw [hhalf]; norm_num), if_neg (by rw [hhalf]; norm_num)]
    show ((mantissa + mantissa % 2 : ℕ) : ℤ) = _
    split_ifs with heven
    · have := Int.even_iff.1 heven
      omega
    · have := Int.odd_iff.1 (Int.not_even_iff_odd.1 heven)
      omega
  · rw [if_neg (by linarith [h.1]), if_pos (by linarith [h.1])]
    rfl

theorem shiftRightOne (h : Lies em x) : Lies em.shiftRightOne (x / 2) := by
  obtain ⟨mantissa, roundBit, stickyBit⟩ := em
  have hhalves : (mantissa : ℝ) = 2 * (mantissa / 2 : ℕ) + (mantissa % 2 : ℕ) := by
    exact_mod_cast (Nat.div_add_mod mantissa 2).symm
  unfold ExtendedMantissa.shiftRightOne
  rcases Nat.mod_two_eq_zero_or_one mantissa with hmod | hmod <;>
    rw [hmod] at hhalves <;> simp only [hmod] <;>
    cases roundBit <;> cases stickyBit <;> simp only [Lies] at h ⊢ <;> norm_num at h hhalves ⊢ <;>
    grind

/-- **Shifting loses nothing.** -/
theorem shiftRight (h : Lies em x) (n : ℕ) : Lies (em >>> n) (x / 2 ^ n) := by
  show Lies (Nat.repeat ExtendedMantissa.shiftRightOne n em) _
  induction n with
  | zero => simpa [Nat.repeat] using h
  | succ n ih =>
    rw [pow_succ, ← div_div]
    exact ih.shiftRightOne

end Lies

/-! ### The number that is stood for -/

/-- A real number under a sign. -/
noncomputable def signed (s : Sign) (x : ℝ) : ℝ :=
  match s with
  | .positive => x
  | .negative => -x

/-- Mantissa and exponent of a double: 53 digits, or fewer of them at the least exponent. -/
structure IsCanonical (mantissa : ℕ) (exponent : ℤ) : Prop where
  lt : mantissa < 2 ^ 53
  le : -1074 ≤ exponent
  normal : 2 ^ 52 ≤ mantissa ∨ exponent = -1074

/-- **The real number that an unpacked double stands for**, if it is finite. -/
def Stands : UnpackedFloat → ℝ → Prop
  | .zero _, x => x = 0
  | .finite s m e _, x => IsCanonical m e ∧ x = signed s (m * 2 ^ e)
  | _, _ => False

theorem signed_rounded (s : Sign) (x : ℝ) : signed s (rounded x) = rounded (signed s x) := by
  cases s
  · exact (rounded_neg x).symm
  · rfl

theorem abs_signed (s : Sign) (x : ℝ) : |signed s x| = |x| := by
  cases s
  · exact abs_neg x
  · rfl

theorem signed_neg (s : Sign) (x : ℝ) : signed (-s) x = -signed s x := by
  cases s
  · exact (neg_neg x).symm
  · rfl

theorem signed_mul (s t : Sign) (x y : ℝ) : signed (s * t) (x * y) = signed s x * signed t y := by
  cases s <;> cases t
  · exact (neg_mul_neg x y).symm
  · exact (neg_mul x y).symm
  · exact (mul_neg x y).symm
  · rfl

theorem signed_div (s t : Sign) (x y : ℝ) : signed (s / t) (x / y) = signed s x / signed t y := by
  cases s <;> cases t
  · exact (neg_div_neg_eq x y).symm
  · exact (neg_div y x).symm
  · exact (div_neg x).symm
  · rfl

theorem cast_apply (s : Sign) (n : ℤ) : ((s.apply n : ℤ) : ℝ) = signed s n := by
  cases s
  · exact Int.cast_neg n
  · rfl

theorem IsCanonical.isRepresentable (h : IsCanonical m e) : IsRepresentable (m * 2 ^ e) :=
  ⟨m, e, by rw [abs_of_nonneg (by omega)]; exact_mod_cast h.lt.le, h.le, rfl⟩

theorem Stands.isRepresentable {u : UnpackedFloat} (h : Stands u x) : IsRepresentable x := by
  cases u with
  | zero s =>
    rw [show x = 0 from h]
    exact ⟨0, 0, by norm_num, by norm_num, by norm_num⟩
  | finite s m e hm =>
    obtain ⟨hcanonical, rfl⟩ := h
    cases s
    · exact hcanonical.isRepresentable.neg
    · exact hcanonical.isRepresentable
  | infinity s => exact h.elim
  | notANumber => exact h.elim

/-! ### Rounding a mantissa -/

/-- The exponent that a mantissa is brought to. -/
def target (m : ℕ) (e : ℤ) : ℤ := Format.targetExponent .binary64 (totalExponent m e)

theorem target_eq (m : ℕ) (e : ℤ) : target m e = max (m.log2 + e - 52) (-1074) := by
  show max ((m.log2 : ℤ) + 1 + e - (53 : ℕ)) (-1074) = _
  omega

/-- **The exponent is that of the last place of the number.** Below the least exponent a mantissa may be
zero. -/
theorem target_eq_lastPlace (hx : (m : ℝ) ≤ x ∧ x < m + 1) (hm : 0 < m ∨ e ≤ -1074) :
    target m e = lastPlace (x * 2 ^ e) := by
  have hhigh : x < 2 ^ ((m.log2 : ℤ) + 1) := by
    refine hx.2.trans_le ?_
    exact_mod_cast Nat.lt_log2_self
  have hnonneg : 0 ≤ x := (Nat.cast_nonneg m).trans hx.1
  have habs : |x * 2 ^ e| = x * 2 ^ e := abs_of_nonneg (mul_nonneg hnonneg (two_zpow_pos e).le)
  have htarget := target_eq m e
  refine (lastPlace_eq ?_ ?_ (by omega)).symm <;> rw [habs]
  · calc x * 2 ^ e < 2 ^ ((m.log2 : ℤ) + 1) * 2 ^ e := mul_lt_mul_of_pos_right hhigh (two_zpow_pos e)
      _ = 2 ^ ((m.log2 : ℤ) + 1 + e) := (two_zpow_add _ _).symm
      _ ≤ 2 ^ (target m e + 53) := two_zpow_le (by omega)
  · rcases le_or_gt ((m.log2 : ℤ) + e - 52) (-1074) with hle | hlt
    · right
      omega
    · left
      have hpos : m ≠ 0 := by
        rintro rfl
        rw [Nat.log2_zero] at hlt
        omega
      have hlow : (2 : ℝ) ^ (m.log2 : ℤ) ≤ x := by
        refine le_trans ?_ hx.1
        exact_mod_cast Nat.log2_self_le hpos
      calc (2 : ℝ) ^ (target m e + 52) = 2 ^ ((m.log2 : ℤ) + e) := by congr 1; omega
        _ = 2 ^ (m.log2 : ℤ) * 2 ^ e := two_zpow_add _ _
        _ ≤ x * 2 ^ e := mul_le_mul_of_nonneg_right hlow (two_zpow_pos e).le

theorem shiftToTargetExponent_eq (m : ℕ) (e : ℤ) (acc : Accuracy) :
    shiftToTargetExponent .binary64 m e acc =
      (ExtendedMantissa.ofMantissaAndAccuracy m acc >>> (target m e - e).toNat,
        e + (target m e - e).toNat) := rfl

/-- **The first shift** leaves the mantissa to be rounded at its last place. -/
theorem shiftToTargetExponent_first {acc : Accuracy} (hx : Lies (.ofMantissaAndAccuracy m acc) x)
    (htarget : target m e = lastPlace (x * 2 ^ e)) (he : e ≤ target m e) :
    (shiftToTargetExponent .binary64 m e acc).2 = lastPlace (x * 2 ^ e) ∧
      ((shiftToTargetExponent .binary64 m e acc).1.roundedMantissa : ℤ) =
        nearest (x * 2 ^ e / 2 ^ lastPlace (x * 2 ^ e)) := by
  obtain ⟨n, hn⟩ := Int.eq_ofNat_of_zero_le (sub_nonneg.2 he)
  have hshift : (target m e - e).toNat = n := by omega
  rw [shiftToTargetExponent_eq, hshift, ← htarget]
  refine ⟨show e + n = _ by omega, ?_⟩
  have hplaces : x * 2 ^ e / 2 ^ target m e = x / 2 ^ n := by
    rw [show target m e = n + e by omega, two_zpow_add, zpow_natCast,
      mul_div_mul_right _ _ (two_zpow_pos e).ne']
  rw [hplaces]
  exact (hx.shiftRight n).roundedMantissa

/-- **The second shift** is for the carry: it changes the form, and not the number. -/
theorem shiftToTargetExponent_second (hm : m ≤ 2 ^ 53) (he : -1074 ≤ e) (hnormal : 2 ^ 52 ≤ m ∨ e = -1074) :
    IsCanonical (shiftToTargetExponent .binary64 m e .exact).1.mantissa
        (shiftToTargetExponent .binary64 m e .exact).2 ∧
      ((shiftToTargetExponent .binary64 m e .exact).1.mantissa : ℝ) *
        2 ^ (shiftToTargetExponent .binary64 m e .exact).2 = m * 2 ^ e := by
  have htarget := target_eq m e
  rw [shiftToTargetExponent_eq]
  rcases hm.lt_or_eq with hlt | rfl
  · have hlog : m.log2 ≤ 52 := by
      rcases m.eq_zero_or_pos with rfl | hpos
      · norm_num
      · have := (Nat.log2_lt hpos.ne').2 hlt
        omega
    rw [show (target m e - e).toNat = 0 by omega]
    show IsCanonical m (e + (0 : ℕ)) ∧ (m : ℝ) * 2 ^ (e + (0 : ℕ)) = _
    rw [Nat.cast_zero, add_zero]
    exact ⟨⟨hlt, he, hnormal⟩, rfl⟩
  · rw [Nat.log2_two_pow] at htarget
    rw [show (target (2 ^ 53) e - e).toNat = 1 by omega]
    show IsCanonical (2 ^ 52) (e + 1) ∧ ((2 ^ 52 : ℕ) : ℝ) * 2 ^ (e + 1) = _
    refine ⟨⟨by norm_num, by omega, .inl le_rfl⟩, ?_⟩
    rw [two_zpow_add]
    push_cast
    ring

/-- **Shifting and rounding a mantissa is rounding the number.** -/
theorem stands_roundWithAccuracy {acc : Accuracy} (hx : Lies (.ofMantissaAndAccuracy m acc) x)
    (htarget : target m e = lastPlace (x * 2 ^ e)) (he : e ≤ target m e) (s : Sign) :
    Stands (roundWithAccuracy .binary64 s m e acc) (rounded (signed s (x * 2 ^ e))) := by
  obtain ⟨hplace, hrounded⟩ := shiftToTargetExponent_first hx htarget he
  have hnonneg : 0 ≤ x * 2 ^ e := by
    have := (Nat.cast_nonneg (α := ℝ) _).trans hx.bounds.1
    positivity
  unfold roundWithAccuracy
  generalize shiftToTargetExponent .binary64 m e acc = first at hplace hrounded ⊢
  obtain ⟨em, place⟩ := first
  dsimp only at hplace hrounded ⊢
  have hnormal : 2 ^ 52 ≤ em.roundedMantissa ∨ place = -1074 := by
    rcases (lastPlace_ge (x * 2 ^ e)).eq_or_lt with heq | hlt
    · exact .inr (hplace.trans heq.symm)
    · left
      have hfirst := le_abs_of_lastPlace hlt
      rw [abs_of_nonneg hnonneg, firstPlace_eq, ← le_div_iff₀ (two_zpow_pos _)] at hfirst
      have := le_nearest hfirst
      omega
  have hcarry : em.roundedMantissa ≤ 2 ^ 53 := by
    have := abs_nearest_le (x * 2 ^ e)
    rw [← hrounded, abs_of_nonneg (by omega)] at this
    omega
  have hvalue : (em.roundedMantissa : ℝ) * 2 ^ place = rounded (x * 2 ^ e) := by
    have hcast : (em.roundedMantissa : ℝ) = nearest (x * 2 ^ e / 2 ^ lastPlace (x * 2 ^ e)) := by
      exact_mod_cast hrounded
    rw [hcast, hplace, rounded]
  obtain ⟨hcanonical, hsame⟩ :=
    shiftToTargetExponent_second hcarry (hplace ▸ lastPlace_ge _) hnormal
  rw [← signed_rounded, ← hvalue, ← hsame]
  generalize shiftToTargetExponent .binary64 em.roundedMantissa place .exact = second at hcanonical ⊢
  split
  · rename_i hzero
    have : signed s (((second.1.mantissa : ℕ) : ℝ) * 2 ^ second.2) = 0 := by
      rw [hzero, Nat.cast_zero, zero_mul]
      cases s <;> simp [signed]
    exact this
  · exact ⟨hcanonical, rfl⟩

/-- Without digits behind the mantissa. -/
theorem stands_roundWithAccuracy_exact (hm : 0 < m) (he : e ≤ target m e) (s : Sign) :
    Stands (roundWithAccuracy .binary64 s m e .exact) (rounded (signed s (m * 2 ^ e))) :=
  stands_roundWithAccuracy (lies_exact m) (target_eq_lastPlace ⟨le_rfl, lt_add_one _⟩ (.inl hm)) he s

/-! ### Operations -/

/-- A mantissa brought down to an exponent stands for the same number. -/
theorem decreaseExponent_eq (m : ℕ) {d e : ℤ} (h : d ≤ e) :
    ((decreaseExponent m e d).1 : ℝ) * 2 ^ d = m * 2 ^ e ∧ (decreaseExponent m e d).2 = d := by
  obtain ⟨n, hn⟩ := Int.eq_ofNat_of_zero_le (sub_nonneg.2 h)
  unfold decreaseExponent
  dsimp only
  rw [show (e - d).toNat = n by omega, Nat.shiftLeft_eq, show e = n + d by omega, two_zpow_add,
    zpow_natCast]
  push_cast
  exact ⟨by ring, by omega⟩

theorem stands_round (hm : 0 < m) (s : Sign) (e : ℤ) :
    Stands (Float.Model.UnpackedFloat.round .binary64 s m e) (rounded (signed s (m * 2 ^ e))) := by
  have hplace : target m e = lastPlace (m * 2 ^ e) := target_eq_lastPlace ⟨le_rfl, lt_add_one _⟩ (.inl hm)
  show Stands (roundWithAccuracy .binary64 s (decreaseExponent m e (target m e)).1
    (decreaseExponent m e (target m e)).2 .exact) _
  rcases le_total (target m e) e with hle | hle
  · obtain ⟨hsame, hexponent⟩ := decreaseExponent_eq m hle
    have hpos : 0 < (decreaseExponent m e (target m e)).1 := by
      unfold decreaseExponent
      exact Nat.shiftLeft_pos_iff.2 hm
    have htarget : target (decreaseExponent m e (target m e)).1 (target m e) = target m e := by
      rw [target_eq_lastPlace ⟨le_rfl, lt_add_one _⟩ (.inl hpos), hsame, ← hplace]
    rw [hexponent, ← hsame]
    exact stands_roundWithAccuracy_exact hpos htarget.ge s
  · unfold decreaseExponent
    dsimp only
    rw [show (e - target m e).toNat = 0 by omega, Nat.shiftLeft_zero]
    simpa using stands_roundWithAccuracy_exact hm hle s

/-- **An integer, scaled**, is rounded. -/
theorem stands_normalize (n : ℤ) (e : ℤ) (s : Sign) :
    Stands (UnpackedFloat.normalize .binary64 n e s) (rounded (n * 2 ^ e)) := by
  unfold UnpackedFloat.normalize
  rcases lt_trichotomy n 0 with hneg | rfl | hpos
  · rw [Int.compare_eq_lt.2 hneg]
    have hcast : (n : ℝ) = -((-n).toNat : ℝ) := by
      have : (n : ℤ) = -((-n).toNat : ℤ) := by omega
      exact_mod_cast congrArg (Int.cast (R := ℝ)) this
    rw [hcast, neg_mul]
    exact stands_round (by omega) .negative e
  · rw [Int.cast_zero, zero_mul, rounded_zero]
    exact rfl
  · rw [Int.compare_eq_gt.2 hpos]
    have hcast : (n : ℝ) = (n.toNat : ℝ) := by
      have : (n : ℤ) = (n.toNat : ℤ) := by omega
      exact_mod_cast congrArg (Int.cast (R := ℝ)) this
    rw [hcast]
    exact stands_round (by omega) .positive e

variable {u v : UnpackedFloat}

/-- An unpacked double that stands for a number is one of the zeros, or has a mantissa. -/
theorem Stands.cases (h : Stands u x) : (∃ s, u = .zero s ∧ x = 0) ∨
    ∃ s m e hm, u = .finite s m e hm ∧ IsCanonical m e ∧ x = signed s (m * 2 ^ e) := by
  cases u with
  | zero s => exact .inl ⟨s, rfl, h⟩
  | finite s m e hm => exact .inr ⟨s, m, e, hm, rfl, h⟩
  | infinity s => exact h.elim
  | notANumber => exact h.elim

theorem Stands.neg (h : Stands u x) : Stands u.neg (-x) := by
  obtain ⟨s, rfl, rfl⟩ | ⟨s, m, e, hm, rfl, hcanonical, rfl⟩ := h.cases
  · exact neg_zero
  · exact ⟨hcanonical, (signed_neg s _).symm⟩

/-- Mantissas brought down to the smaller exponent are added as integers. -/
theorem decreaseExponent_add (s s' : Sign) (m m' : ℕ) (e e' : ℤ) :
    ((s.apply (decreaseExponent m e (min e e')).1 + s'.apply (decreaseExponent m' e' (min e e')).1 : ℤ) : ℝ)
      * 2 ^ min e e' = signed s (m * 2 ^ e) + signed s' (m' * 2 ^ e') := by
  obtain ⟨hleft, -⟩ := decreaseExponent_eq m (min_le_left e e')
  obtain ⟨hright, -⟩ := decreaseExponent_eq m' (min_le_right e e')
  have hscale : ∀ (s : Sign) (n : ℕ) (p : ℝ), signed s (n * p) = signed s n * p := by
    intro s n p
    cases s
    · exact neg_mul_eq_neg_mul (n : ℝ) p
    · rfl
  rw [← hleft, ← hright, hscale, hscale, ← add_mul, Int.cast_add, cast_apply, cast_apply,
    Int.cast_natCast, Int.cast_natCast]

/-- **Sums are rounded.** -/
theorem stands_add (hu : Stands u x) (hv : Stands v y) :
    Stands (UnpackedFloat.add .binary64 u v) (rounded (x + y)) := by
  obtain ⟨s, rfl, rfl⟩ | ⟨s, m, e, hm, rfl, hcanonical, rfl⟩ := hu.cases
  · rw [zero_add, rounded_eq_self hv.isRepresentable]
    obtain ⟨s', rfl, rfl⟩ | ⟨s', m', e', hm', rfl, hcanonical', rfl⟩ := hv.cases
    · cases s <;> cases s' <;> exact rfl
    · exact hv
  · obtain ⟨s', rfl, rfl⟩ | ⟨s', m', e', hm', rfl, hcanonical', rfl⟩ := hv.cases
    · rw [add_zero, rounded_eq_self hu.isRepresentable]
      exact hu
    · rw [← decreaseExponent_add]
      exact stands_normalize _ _ _

/-- A difference is the sum with the second number turned about. -/
theorem sub_eq_add_neg_of_stands (hu : Stands u x) (hv : Stands v y) :
    UnpackedFloat.sub .binary64 u v = UnpackedFloat.add .binary64 u v.neg := by
  obtain ⟨s, rfl, rfl⟩ | ⟨s, m, e, hm, rfl, hcanonical, rfl⟩ := hu.cases
  · obtain ⟨s', rfl, rfl⟩ | ⟨s', m', e', hm', rfl, hcanonical', rfl⟩ := hv.cases <;>
      cases s <;> cases s' <;> rfl
  · obtain ⟨s', rfl, rfl⟩ | ⟨s', m', e', hm', rfl, hcanonical', rfl⟩ := hv.cases
    · rfl
    · have hneg : ∀ n : ℤ, (-s').apply n = -s'.apply n := by
        intro n
        cases s'
        · exact (neg_neg n).symm
        · rfl
      simp only [UnpackedFloat.sub, UnpackedFloat.add, UnpackedFloat.neg, hneg, sub_eq_add_neg]

/-- **Differences are rounded.** -/
theorem stands_sub (hu : Stands u x) (hv : Stands v y) :
    Stands (UnpackedFloat.sub .binary64 u v) (rounded (x - y)) := by
  rw [sub_eq_add_neg_of_stands hu hv, sub_eq_add_neg]
  exact stands_add hu hv.neg

/-- **Products are rounded.** -/
theorem stands_mul (hu : Stands u x) (hv : Stands v y) :
    Stands (UnpackedFloat.mul .binary64 u v) (rounded (x * y)) := by
  obtain ⟨s, rfl, rfl⟩ | ⟨s, m, e, hm, rfl, hcanonical, rfl⟩ := hu.cases
  · rw [zero_mul, rounded_zero]
    obtain ⟨s', rfl, rfl⟩ | ⟨s', m', e', hm', rfl, hcanonical', rfl⟩ := hv.cases <;> exact rfl
  · obtain ⟨s', rfl, rfl⟩ | ⟨s', m', e', hm', rfl, hcanonical', rfl⟩ := hv.cases
    · rw [mul_zero, rounded_zero]
      exact rfl
    · have hproduct : signed s (m * 2 ^ e) * signed s' (m' * 2 ^ e') =
          signed (s * s') ((m * m' : ℕ) * 2 ^ (e + e')) := by
        rw [← signed_mul, two_zpow_add]
        push_cast
        ring_nf
      -- there are digits enough, or both exponents are the least one
      have hexponent : e + e' ≤ target (m * m') (e + e') := by
        rw [target_eq]
        rcases hcanonical.normal with hnormal | rfl
        · have := (Nat.le_log2 (Nat.mul_pos hm hm').ne').2 (hnormal.trans (Nat.le_mul_of_pos_right m hm'))
          omega
        · rcases hcanonical'.normal with hnormal | rfl
          · have := (Nat.le_log2 (Nat.mul_pos hm hm').ne').2 (hnormal.trans (Nat.le_mul_of_pos_left m' hm))
            omega
          · omega
      rw [hproduct]
      exact stands_roundWithAccuracy_exact (Nat.mul_pos hm hm') hexponent _

/-- Where a quotient is cut off, it keeps all digits that count. -/
theorem divCore_eq (m m' : ℕ) (e e' : ℤ) : ∃ (k : ℕ) (d : ℤ),
    divCore .binary64 m e m' e' =
      (m * 2 ^ k / m', d, accuracyOfFraction (m * 2 ^ k % m') m') ∧
    e = k + d + e' ∧ d ≤ max ((m.log2 : ℤ) + e - m'.log2 - e' - 53) (-1074) := by
  obtain ⟨d, hd⟩ : ∃ d, d = min (e - e')
      (Format.targetExponent .binary64 (totalExponent m e - totalExponent m' e')) := ⟨_, rfl⟩
  have hmax : Format.targetExponent .binary64 (totalExponent m e - totalExponent m' e') =
      max ((m.log2 : ℤ) + e - m'.log2 - e' - 53) (-1074) := by
    show max ((m.log2 : ℤ) + 1 + e - (m'.log2 + 1 + e') - (53 : ℕ)) (-1074) = _
    omega
  refine ⟨(e - e' - d).toNat, d, ?_, by omega, by omega⟩
  unfold divCore
  dsimp only
  rw [← hd, Nat.shiftLeft_eq]

/-- A quotient has its first digit where those of the two numbers say, or one place behind. -/
theorem two_zpow_lt_div {m' : ℕ} (hm : 0 < m) (hm' : 0 < m') (e e' : ℤ) :
    (2 : ℝ) ^ ((m.log2 : ℤ) + e - m'.log2 - e' - 1) < m * 2 ^ e / (m' * 2 ^ e') := by
  have hlow : (2 : ℝ) ^ ((m.log2 : ℤ) + e) ≤ m * 2 ^ e := by
    rw [two_zpow_add]
    exact mul_le_mul_of_nonneg_right (by exact_mod_cast Nat.log2_self_le hm.ne') (two_zpow_pos e).le
  have hhigh : m' * 2 ^ e' < (2 : ℝ) ^ ((m'.log2 : ℤ) + 1 + e') := by
    rw [two_zpow_add]
    exact mul_lt_mul_of_pos_right (by exact_mod_cast Nat.lt_log2_self) (two_zpow_pos e')
  rw [lt_div_iff₀ (mul_pos (by exact_mod_cast hm') (two_zpow_pos e'))]
  calc (2 : ℝ) ^ ((m.log2 : ℤ) + e - m'.log2 - e' - 1) * (m' * 2 ^ e')
      < 2 ^ ((m.log2 : ℤ) + e - m'.log2 - e' - 1) * 2 ^ ((m'.log2 : ℤ) + 1 + e') :=
        mul_lt_mul_of_pos_left hhigh (two_zpow_pos _)
    _ = 2 ^ ((m.log2 : ℤ) + e) := by rw [← two_zpow_add]; congr 1; ring
    _ ≤ m * 2 ^ e := hlow

theorem mantissa_ofMantissaAndAccuracy (m : ℕ) (acc : Accuracy) :
    (ExtendedMantissa.ofMantissaAndAccuracy m acc).mantissa = m := by
  unfold ExtendedMantissa.ofMantissaAndAccuracy
  split <;> rfl

/-- **Quotients are rounded.** -/
theorem stands_div (hu : Stands u x) (hv : Stands v y) (hy : y ≠ 0) :
    Stands (UnpackedFloat.div .binary64 u v) (rounded (x / y)) := by
  obtain ⟨s', rfl, rfl⟩ | ⟨s', m', e', hm', rfl, hcanonical', rfl⟩ := hv.cases
  · exact absurd rfl hy
  obtain ⟨s, rfl, rfl⟩ | ⟨s, m, e, hm, rfl, hcanonical, rfl⟩ := hu.cases
  · rw [zero_div, rounded_zero]
    exact rfl
  obtain ⟨k, d, hcore, he, hd⟩ := divCore_eq m m' e e'
  have hm'ne : (m' : ℝ) ≠ 0 := by exact_mod_cast hm'.ne'
  have hquotient : (m * 2 ^ e : ℝ) / (m' * 2 ^ e') = (m * 2 ^ k : ℕ) / m' * 2 ^ d := by
    rw [he, two_zpow_add, two_zpow_add, zpow_natCast]
    have := (two_zpow_pos e').ne'
    push_cast
    field_simp
  have hfirst := two_zpow_lt_div hm hm' e e'
  rw [hquotient] at hfirst
  have hlies := lies_quotient (m * 2 ^ k) hm'
  have hbounds := hlies.bounds
  rw [mantissa_ofMantissaAndAccuracy] at hbounds
  have hmost : d < (m.log2 : ℤ) + e - m'.log2 - e' - 1 ∨ d ≤ -1074 := by omega
  have hsmall : 0 < m * 2 ^ k / m' ∨ d ≤ -1074 := by
    refine or_iff_not_imp_right.2 fun hlarge => Nat.pos_of_ne_zero fun hzero => ?_
    rw [hzero, Nat.cast_zero, zero_add] at hbounds
    have hless : ((m * 2 ^ k : ℕ) : ℝ) / m' * 2 ^ d < 1 * 2 ^ d :=
      mul_lt_mul_of_pos_right hbounds.2 (two_zpow_pos d)
    have := two_zpow_lt (hmost.resolve_right hlarge)
    linarith
  have hplace := target_eq_lastPlace hbounds hsmall
  have hexponent : d ≤ target (m * 2 ^ k / m') d := by
    have hge := lastPlace_ge ((m * 2 ^ k : ℕ) / m' * 2 ^ d)
    have hlt := hfirst.trans ((le_abs_self _).trans_lt (abs_lt_of_lastPlace _))
    have := (zpow_lt_zpow_iff_right₀ one_lt_two).1 hlt
    omega
  rw [← signed_div, hquotient]
  show Stands (roundWithAccuracy .binary64 (s / s') (divCore .binary64 m e m' e').1
    (divCore .binary64 m e m' e').2.1 (divCore .binary64 m e m' e').2.2) _
  rw [hcore]
  exact stands_roundWithAccuracy hlies hplace hexponent _

/-! ### The order -/

/-- Exponents are compared first, then mantissas. -/
theorem compare_mantissas {m' : ℕ} {e' : ℤ} (h : IsCanonical m e) (h' : IsCanonical m' e') :
    (compare e e').then (compare m m') = compare ((m : ℝ) * 2 ^ e) (m' * 2 ^ e') := by
  have hless : ∀ {m m' : ℕ} {e e' : ℤ}, IsCanonical m e → IsCanonical m' e' → e < e' →
      (m : ℝ) * 2 ^ e < m' * 2 ^ e' := by
    intro m m' e e' h h' hlt
    have hnormal : 2 ^ 52 ≤ m' := h'.normal.resolve_right (by have := h.le; omega)
    calc (m : ℝ) * 2 ^ e < 2 ^ (53 : ℤ) * 2 ^ e :=
          mul_lt_mul_of_pos_right (by exact_mod_cast h.lt) (two_zpow_pos e)
      _ = 2 ^ (53 + e) := (two_zpow_add _ _).symm
      _ ≤ 2 ^ (52 + e') := two_zpow_le (by omega)
      _ = 2 ^ (52 : ℤ) * 2 ^ e' := two_zpow_add _ _
      _ ≤ m' * 2 ^ e' := mul_le_mul_of_nonneg_right (by exact_mod_cast hnormal) (two_zpow_pos e').le
  rcases lt_trichotomy e e' with hlt | rfl | hgt
  · rw [compare_lt_iff_lt.2 hlt, compare_lt_iff_lt.2 (hless h h' hlt)]
    rfl
  · rw [compare_eq_iff_eq.2 rfl, Ordering.eq_then]
    rcases lt_trichotomy m m' with hlt | rfl | hgt
    · rw [compare_lt_iff_lt.2 hlt, compare_lt_iff_lt.2]
      exact mul_lt_mul_of_pos_right (by exact_mod_cast hlt) (two_zpow_pos e)
    · rw [compare_eq_iff_eq.2 rfl, compare_eq_iff_eq.2 rfl]
    · rw [compare_gt_iff_gt.2 hgt, compare_gt_iff_gt.2]
      exact mul_lt_mul_of_pos_right (by exact_mod_cast hgt) (two_zpow_pos e)
  · rw [compare_gt_iff_gt.2 hgt, compare_gt_iff_gt.2 (hless h' h hgt)]
    rfl

theorem compare_neg (x y : ℝ) : compare (-x) (-y) = (compare x y).swap := by
  rcases lt_trichotomy x y with hlt | rfl | hgt
  · rw [compare_lt_iff_lt.2 hlt]
    exact compare_gt_iff_gt.2 (neg_lt_neg hlt)
  · rw [compare_eq_iff_eq.2 rfl, compare_eq_iff_eq.2 rfl]
    rfl
  · rw [compare_gt_iff_gt.2 hgt]
    exact compare_lt_iff_lt.2 (neg_lt_neg hgt)

/-- **Unpacked doubles are ordered as the numbers are that they stand for.** -/
theorem compare_of_stands (hu : Stands u x) (hv : Stands v y) : u.compare v = some (compare x y) := by
  have hpos : ∀ {m : ℕ} (e : ℤ), 0 < m → (0 : ℝ) < m * 2 ^ e := fun e hm =>
    mul_pos (by exact_mod_cast hm) (two_zpow_pos e)
  have hneg : ∀ {m : ℕ} (e : ℤ), 0 < m → -((m : ℝ) * 2 ^ e) < 0 := fun e hm =>
    neg_neg_of_pos (hpos e hm)
  obtain ⟨s, rfl, rfl⟩ | ⟨s, m, e, hm, rfl, hcanonical, rfl⟩ := hu.cases
  · obtain ⟨s', rfl, rfl⟩ | ⟨s', m', e', hm', rfl, hcanonical', rfl⟩ := hv.cases
    · exact congrArg some (compare_eq_iff_eq.2 rfl).symm
    · cases s'
      · exact congrArg some (compare_gt_iff_gt.2 (hneg e' hm')).symm
      · exact congrArg some (compare_lt_iff_lt.2 (hpos e' hm')).symm
  · obtain ⟨s', rfl, rfl⟩ | ⟨s', m', e', hm', rfl, hcanonical', rfl⟩ := hv.cases
    · cases s
      · exact congrArg some (compare_lt_iff_lt.2 (hneg e hm)).symm
      · exact congrArg some (compare_gt_iff_gt.2 (hpos e hm)).symm
    · have hsame := compare_mantissas hcanonical hcanonical'
      cases s <;> cases s'
      · exact congrArg some ((congrArg Ordering.swap hsame).trans (compare_neg _ _).symm)
      · exact congrArg some (compare_lt_iff_lt.2 ((hneg e hm).trans (hpos e' hm'))).symm
      · exact congrArg some (compare_gt_iff_gt.2 ((hneg e' hm').trans (hpos e hm))).symm
      · exact congrArg some hsame

end Polyphony.Binary64
