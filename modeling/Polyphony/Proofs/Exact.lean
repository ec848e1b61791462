import Mathlib.Analysis.SpecialFunctions.Trigonometric.Basic
import Mathlib.Algebra.BigOperators.Fin
import Polyphony.Spectrum

/-!
# Exact arithmetic

The real numbers are scalars, so every definition that is written for all scalars can be read in
exact arithmetic. The lemmas here turn its literals, functions and sums into those of the reals.
-/

namespace Polyphony

open Scalar

/-- The division of the reals, found before the one that they have as scalars. -/
noncomputable instance Exact.realDiv : Div ℝ := DivInvMonoid.toDiv

/-- What stands behind the numeral two, under one name wherever it is used. -/
instance Exact.atLeastTwo : Nat.AtLeastTwo 2 := ⟨le_rfl⟩

/-- **The real numbers as scalars.** Every integer is one of them, and so is every power of two. -/
noncomputable instance : Scalar ℝ where
  lt a b := decide (a < b)
  le a b := decide (a ≤ b)
  eq a b := decide (a = b)
  abs := abs
  floor x := ⌊x⌋
  sin := Real.sin
  cos := Real.cos
  pi := Real.pi
  ofNat n := n
  ofInt? n := .ok n
  twoToThe? n := .ok (2 ^ n)
  toInt? x := .ok (if 0 ≤ x then ⌊x⌋ else ⌈x⌉)

namespace Exact

variable {a b x : ℝ} {n : ℕ}

@[simp] theorem zero_lit : (0.0 : ℝ) = 0 := by norm_num

@[simp] theorem one_lit : (1.0 : ℝ) = 1 := by norm_num

@[simp] theorem two_lit : (2.0 : ℝ) = 2 := by norm_num

@[simp] theorem lt_iff : (lt a b = true) ↔ a < b := decide_eq_true_iff

@[simp] theorem le_iff : (le a b = true) ↔ a ≤ b := decide_eq_true_iff

@[simp] theorem eq_iff : (eq a b = true) ↔ a = b := decide_eq_true_iff

@[simp] theorem sin_eq : sin x = Real.sin x := rfl

@[simp] theorem cos_eq : cos x = Real.cos x := rfl

@[simp] theorem pi_eq : (pi : ℝ) = Real.pi := rfl

@[simp] theorem ofNat_eq : (ofNat n : ℝ) = n := rfl

open Finset

/-- A sum that is built up term by term. -/
theorem sumTo_eq (n : ℕ) (f : ℕ → ℝ) : sumTo n f = ∑ k ∈ range n, f k := by
  unfold sumTo
  induction n with
  | zero => simp
  | succ n ih => rw [Nat.fold_succ, ih, sum_range_succ]

theorem foldl_add_eq (n : ℕ) (f : Fin n → ℝ) :
    Fin.foldl n (fun sum i => sum + f i) 0.0 = ∑ i, f i := by
  induction n with
  | zero => simp
  | succ n ih => rw [Fin.foldl_succ_last, ih, Fin.sum_univ_castSucc]

end Exact

end Polyphony
