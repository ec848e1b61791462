import Polyphony.Proofs.Binary64.Value

/-!
# Sums of doubles that are not negative

A double that is not less than zero need not be a number: it can be infinite or undefined. Sums of such
doubles do not go down all the same.

* `not_lt_zero_cases`, `add_cases`: what is not less than zero, and sums of it.
* `not_add_lt`: **adding what is not negative does not lead back.**
-/

namespace Polyphony.Binary64

open Exact
open Float.Model (UnpackedFloat)
open Float.Model.UnpackedFloat

variable {y : ℝ} {u v : UnpackedFloat} {a b : Float}

/-- Undefined, or infinite above zero. -/
def IsBoundless : UnpackedFloat → Prop
  | .notANumber | .infinity .positive => True
  | _ => False

theorem IsBoundless.unpack_pack (h : IsBoundless u) : IsBoundless (Float.Model.pack u).unpack := by
  match u, h with
  | .notANumber, _ => trivial
  | .infinity .positive, _ => trivial

theorem IsBoundless.compare_ne_lt (h : IsBoundless u) (v : UnpackedFloat) : u.compare v ≠ some .lt := by
  match u, h with
  | .notANumber, _ => nofun
  | .infinity .positive, _ =>
    cases v with
    | infinity s => cases s <;> nofun
    | _ => nofun

/-- **What is not negative.** -/
theorem not_lt_zero_cases (h : ¬ a < 0.0) :
    IsBoundless a.toModel.unpack ∨ ∃ x, 0 ≤ x ∧ Denotes a x := by
  cases hunpack : a.toModel.unpack with
  | notANumber => exact .inl trivial
  | infinity s =>
    cases s with
    | positive => exact .inl trivial
    | negative => exact absurd (lt_iff_compare.2 (by rw [hunpack]; rfl)) h
  | zero s => exact .inr ⟨0, le_rfl, denotes_zero hunpack⟩
  | finite s m e hm =>
    have hdenotes := denotes_of_unpack _ hunpack
    exact .inr ⟨_, not_lt.1 (mt (hdenotes.lt_iff denotes_nothing).2 h), hdenotes⟩

theorem IsBoundless.add_stands (hu : IsBoundless u) (hv : Stands v y) :
    IsBoundless (UnpackedFloat.add .binary64 u v) ∧ IsBoundless (UnpackedFloat.add .binary64 v u) := by
  obtain ⟨s, rfl, -⟩ | ⟨s, m, e, hm, rfl, -⟩ := hv.cases
  · match u, hu with
    | .notANumber, _ | .infinity .positive, _ => exact ⟨trivial, trivial⟩
  · match u, hu with
    | .notANumber, _ | .infinity .positive, _ => exact ⟨trivial, trivial⟩

theorem IsBoundless.add (hu : IsBoundless u) (hv : IsBoundless v) :
    IsBoundless (UnpackedFloat.add .binary64 u v) := by
  match u, v, hu, hv with
  | .notANumber, _, _, _ => trivial
  | .infinity .positive, .notANumber, _, _ => trivial
  | .infinity .positive, .infinity .positive, _, _ => trivial

/-- **Sums of what is not negative** are boundless, or not less than the first number. -/
theorem add_cases (ha : ¬ a < 0.0) (hb : ¬ b < 0.0) : IsBoundless (a + b).toModel.unpack ∨
    ∃ x z, 0 ≤ x ∧ x ≤ z ∧ Denotes a x ∧ Denotes (a + b) z := by
  rcases not_lt_zero_cases ha with ha | ⟨x, hx, ha⟩
  · rcases not_lt_zero_cases hb with hb | ⟨y, -, hb⟩
    · exact .inl (ha.add hb).unpack_pack
    · exact .inl (ha.add_stands hb).1.unpack_pack
  · rcases not_lt_zero_cases hb with hb | ⟨y, hy, hb⟩
    · exact .inl (hb.add_stands ha).2.unpack_pack
    · have hge : x ≤ rounded (x + y) := le_rounded ha.isRepresentable (le_add_of_nonneg_right hy)
      rcases lt_or_ge (rounded (x + y)) (2 ^ (1024 : ℤ)) with hsmall | hlarge
      · refine .inr ⟨x, _, hx, hge, ha, ha.add hb ?_⟩
        rwa [abs_of_nonneg (hx.trans hge)]
      · left
        show IsBoundless (Float.Model.pack _).unpack
        rw [(stands_add ha hb).unpack_pack_of_large hlarge]
        trivial

/-- **Adding a double that is not negative does not lead back.** -/
theorem not_add_lt (ha : ¬ a < 0.0) (hb : ¬ b < 0.0) : ¬ a + b < 0.0 ∧ ¬ a + b < a := by
  rcases add_cases ha hb with h | ⟨x, z, hx, hz, ha, hsum⟩
  · exact ⟨fun hlt => h.compare_ne_lt _ (lt_iff_compare.1 hlt),
      fun hlt => h.compare_ne_lt _ (lt_iff_compare.1 hlt)⟩
  · rw [hsum.lt_iff denotes_nothing, hsum.lt_iff ha]
    exact ⟨not_lt.2 (hx.trans hz), not_lt.2 hz⟩

end Polyphony.Binary64
