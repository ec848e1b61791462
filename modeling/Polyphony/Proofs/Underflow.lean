import Polyphony.Proofs.Binary64.Value

/-!
# Products that do not underflow

The product of two doubles can be zero although neither factor is. Not so if one of them is at least one.

* `IsZero`, `beq_zero_iff`: what compares equal to zero.
* `rounded_mul_ne_zero`: rounding a product does not lead past the smaller factor.
* `mul_beq_zero_of_one_le`: **no number is lost to a factor that is at least one.**
-/

namespace Polyphony.Binary64

open Float.Model (UnpackedFloat)
open Float.Model.UnpackedFloat

variable {x y : ℝ} {u v : UnpackedFloat}

/-! ### Zeros -/

/-- The two zeros. -/
def IsZero : UnpackedFloat → Prop
  | .zero _ => True
  | _ => False

theorem beq_zero_iff (x : Float) : (x == 0.0) = true ↔ IsZero x.toModel.unpack := by
  have hcompare : (x == 0.0) = (x.toModel.unpack.compare (.zero .positive) == some .eq) := rfl
  rw [hcompare]
  cases x.toModel.unpack with
  | finite s m e hm => cases s <;> simp [UnpackedFloat.compare, IsZero]
  | infinity s => cases s <;> simp [UnpackedFloat.compare, IsZero]
  | zero s => simp [UnpackedFloat.compare, IsZero]
  | notANumber => simp [UnpackedFloat.compare, IsZero]

theorem Stands.not_isZero (h : Stands u x) (hx : x ≠ 0) : ¬ IsZero u := by
  cases u with
  | zero s => exact absurd h hx
  | _ => exact id

theorem not_isZero_pack_notANumber : ¬ IsZero (Float.Model.pack .notANumber).unpack := id

theorem not_isZero_pack_infinity (s : Sign) : ¬ IsZero (Float.Model.pack (.infinity s)).unpack := by
  cases s <;> exact id

/-- Packing does not make a zero of another number. -/
theorem Stands.not_isZero_pack (h : Stands u x) (hx : x ≠ 0) : ¬ IsZero (Float.Model.pack u).unpack := by
  rcases lt_or_ge |x| (2 ^ (1024 : ℤ)) with hsmall | hlarge
  · rw [h.unpack_pack hsmall]
    exact h.not_isZero hx
  · obtain ⟨s, hpack, -⟩ := h.exists_unpack_pack hlarge
    rw [hpack]
    exact id

/-! ### Products -/

/-- **Rounding a product does not lead past a factor** if the other one is at least one. -/
theorem rounded_mul_ne_zero (hx : 1 ≤ x) (hy : IsRepresentable y) (hne : y ≠ 0) : rounded (x * y) ≠ 0 := by
  rcases hne.lt_or_gt with hneg | hpos
  · have hle : x * y ≤ y := by nlinarith
    exact ((rounded_le hy hle).trans_lt hneg).ne
  · have hle : y ≤ x * y := by nlinarith
    exact (hpos.trans_le (le_rounded hy hle)).ne'

theorem not_isZero_infinity_mul (s : Sign) (hv : ¬ IsZero v) :
    ¬ IsZero (Float.Model.pack (UnpackedFloat.mul .binary64 (.infinity s) v)).unpack := by
  cases v with
  | zero s' => exact absurd trivial hv
  | notANumber => exact not_isZero_pack_notANumber
  | infinity s' | finite s' => exact not_isZero_pack_infinity (s * s')

theorem not_isZero_mul_of_one_le {b : Float} (hu : Stands u x) (hx : 1 ≤ x) (hb : ¬ IsZero b.toModel.unpack) :
    ¬ IsZero (Float.Model.pack (UnpackedFloat.mul .binary64 u b.toModel.unpack)).unpack := by
  cases hunpack : b.toModel.unpack with
  | zero s => exact absurd (hunpack ▸ trivial) hb
  | finite s m e hm =>
    have hfactor := denotes_of_unpack hm hunpack
    have hne : signed s (m * 2 ^ e) ≠ 0 := by
      rw [← abs_ne_zero, abs_signed, abs_ne_zero]
      exact (mul_pos (by exact_mod_cast hm) (two_zpow_pos e)).ne'
    rw [← hunpack]
    exact (stands_mul hu hfactor).not_isZero_pack (rounded_mul_ne_zero hx hfactor.isRepresentable hne)
  | infinity s =>
    obtain ⟨s', rfl, rfl⟩ | ⟨s', m, e, hm, rfl, -⟩ := hu.cases
    · exact absurd hx (by norm_num)
    · exact not_isZero_pack_infinity (s' * s)
  | notANumber =>
    obtain ⟨s', rfl, -⟩ | ⟨s', m, e, hm, rfl, -⟩ := hu.cases <;>
      exact not_isZero_pack_notANumber

/-- **No number is lost to a factor that is at least one.** -/
theorem mul_beq_zero_of_one_le {x y : Float} (hx : 1.0 ≤ x) (hy : (y == 0.0) = false) :
    (x * y == 0.0) = false := by
  have hfactor : ¬ IsZero y.toModel.unpack := fun h => by
    rw [(beq_zero_iff y).2 h] at hy
    cases hy
  refine Bool.eq_false_iff.2 fun h => ?_
  have hproduct : IsZero (Float.Model.pack
      (UnpackedFloat.mul .binary64 x.toModel.unpack y.toModel.unpack)).unpack := (beq_zero_iff _).1 h
  cases hunpack : x.toModel.unpack with
  | notANumber =>
    rw [hunpack] at hproduct
    exact not_isZero_pack_notANumber hproduct
  | infinity s =>
    rw [hunpack] at hproduct
    exact not_isZero_infinity_mul s hfactor hproduct
  | zero s => exact absurd ((denotes_one.le_iff (denotes_zero hunpack)).1 hx) (by norm_num)
  | finite s m e hm =>
    have hdenotes := denotes_of_unpack hm hunpack
    exact not_isZero_mul_of_one_le hdenotes ((denotes_one.le_iff hdenotes).1 hx) hfactor hproduct

end Polyphony.Binary64
