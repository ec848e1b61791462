import Mathlib
import Polyphony.Scalar

/-!
# Comparing and converting doubles

Two doubles compare with each other as the other way round, turned about (`compare_swap`), so of a
strict comparison and the reverse weak one at most one holds. A finite double has an integer part.
-/

namespace Polyphony.Binary64

open Float.Model (UnpackedFloat)

theorem compare_swap (a b : UnpackedFloat) : b.compare a = (a.compare b).map Ordering.swap := by
  cases a with
  | notANumber => cases b <;> simp [UnpackedFloat.compare]
  | infinity s =>
    cases s <;> cases b with
    | infinity s' => cases s' <;> rfl
    | _ => rfl
  | zero s =>
    cases b with
    | infinity s' => cases s' <;> rfl
    | finite s' => cases s' <;> rfl
    | _ => rfl
  | finite s m e hm =>
    cases s <;> cases b with
    | infinity s' => cases s' <;> rfl
    | finite s' m' e' hm' =>
      -- the exponents are compared first, then the mantissas
      have hexponents : compare e' e = (compare e e').swap := Std.OrientedCmp.eq_swap
      have hmantissas : compare m' m = (compare m m').swap := Std.OrientedCmp.eq_swap
      cases s' <;> simp [UnpackedFloat.compare, Ordering.swap_then, hexponents, hmantissas]
    | _ => rfl

variable {x y : Float}

theorem not_le_of_lt (h : x < y) : ¬ y ≤ x := by
  intro hle
  have hless : x.toModel.unpack.compare y.toModel.unpack = some .lt := eq_of_beq (of_decide_eq_true h)
  have hback : (y.toModel.unpack.compare x.toModel.unpack).any (·.isLE) = true :=
    of_decide_eq_true hle
  rw [compare_swap, hless] at hback
  cases hback

/-- Neither undefined nor infinite, a double has an integer part. -/
theorem toInt?_of_isFinite (h : x.isFinite = true) : toInt? x = .ok (integerPart x) := by
  have hclass : x.isNaN = false ∧ x.isInf = false := by
    simp only [Float.isFinite, Float.isNaN, Float.isInf, Float.Model.isFinite, Float.Model.isNaN,
      Float.Model.isInf] at *
    cases hx : x.toModel.unpack <;>
      simp_all [UnpackedFloat.isFinite, UnpackedFloat.isNaN, UnpackedFloat.isInf]
  rw [toInt?, hclass.1, hclass.2]
  rfl

end Polyphony.Binary64
