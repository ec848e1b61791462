import Mathlib
import Polyphony.Proofs.Signal.Integrable
import Polyphony.Proofs.Signal.Integral

/-!
# Antiderivatives without gates

In exact arithmetic the antiderivative of a signal that is built from constants, lines and sines by
mixers, gains, shifts, delays and ranges is one in the sense of calculus.

* `Ugen.IsElementary`: these generators, `Ugen.IsAffine`: those among them that are not sines.
* `Ugen.hasDerivAt_primitive`: **one rule at a time.** Differentiating what the rule makes of
  antiderivatives gives what the generator makes of their derivatives.
* `Signal.integral_antiderivative`: whole trees, by induction on the tree.
-/

namespace Polyphony

open Wiring Exact

variable {reels later : Reels ℝ}

/-! ### Signals that are integrated without gates -/

/-- The generators that make affine functions of time from affine functions of time. -/
inductive Ugen.IsAffine {α : Type} [Scalar α] : {n : ℕ} → Ugen α n → Prop
  | constant (value : α) : IsAffine (.constant value)
  | line (a0 a1 : α) : IsAffine (.line a0 a1)
  | mix {n : ℕ} (gains : Fin n → α) : IsAffine (.mix gains)
  | gain (factor : α) : IsAffine (.gain factor)
  | shift (offset : α) : IsAffine (.shift offset)
  | delay (seconds : α) : IsAffine (.delay seconds)
  | range (low high : α) : IsAffine (.range low high)

/-- The generators that have an antiderivative without a gate: those and the sines. -/
inductive Ugen.IsElementary {α : Type} [Scalar α] : {n : ℕ} → Ugen α n → Prop
  | affine {n : ℕ} {u : Ugen α n} (h : u.IsAffine) : IsElementary u
  | sine (frequency phase : α) : IsElementary (.sine frequency phase)

/-- Every generator of a signal has a property. -/
def Signal.All {α : Type} [Scalar α] (P : (n : ℕ) → Ugen α n → Prop) : Signal α → Prop
  | node _ ugen inputs => P _ ugen ∧ ∀ i, (inputs i).All P

theorem Signal.All.mono {α : Type} [Scalar α] {P Q : (n : ℕ) → Ugen α n → Prop} {s : Signal α}
    (hs : s.All P) (h : ∀ n u, P n u → Q n u) : s.All Q := by
  induction s with
  | node id ugen inputs ih => exact ⟨h _ _ hs.1, fun i => ih i (hs.2 i)⟩

theorem Signal.All.of_mem_descent {α : Type} [Scalar α] {P : (n : ℕ) → Ugen α n → Prop} {s p : Signal α}
    (hs : s.All P) (hp : p ∈ s.descent) : P _ p.ugen := by
  induction s with
  | node id ugen inputs ih =>
    rw [descent, List.mem_cons] at hp
    rcases hp with rfl | hp
    · exact hs.1
    · split at hp
      · obtain ⟨i, -, hi⟩ := List.mem_flatMap.1 hp
        exact ih i (hs.2 i) hi
      · cases hp

/-- A sine of any frequency and phase. -/
theorem hasDerivAt_sinePrimitive (frequency phase t : ℝ) :
    HasDerivAt (sinePrimitive frequency phase)
      (Real.sin (2 * Real.pi * frequency * t + phase)) t := by
  unfold sinePrimitive
  by_cases hf : frequency = 0
  · simp only [if_pos hf]
    refine ((hasDerivAt_id' t).const_mul (Real.sin phase)).congr_deriv ?_
    rw [hf]
    ring_nf
  · simp only [if_neg hf]
    have hw : 2 * Real.pi * frequency ≠ 0 := mul_ne_zero Real.two_pi_pos.ne' hf
    have hangle : HasDerivAt (fun u => 2 * Real.pi * frequency * u + phase)
        (2 * Real.pi * frequency * 1) t :=
      ((hasDerivAt_id' t).const_mul _).add_const phase
    refine ((hangle.cos.const_sub _).div_const _).congr_deriv ?_
    field_simp

namespace Ugen

variable {n : ℕ} {u : Ugen ℝ n} {f F : Fin n → ℝ → ℝ}

/-- **The antiderivative of an elementary generator** is one: if the functions `F` have the
derivatives `f`, what the rule makes of `F` has the derivative that the generator makes of `f`. -/
theorem hasDerivAt_primitive (hu : u.IsElementary) (hF : ∀ i t, HasDerivAt (F i) (f i t) t)
    (t : ℝ) : HasDerivAt (u.primitive F) (u.sample later f t) t := by
  cases hu with
  | sine frequency phase =>
    rw [sample_sine]
    exact hasDerivAt_sinePrimitive frequency phase t
  | affine h =>
    cases h with
    | constant value =>
      exact ((hasDerivAt_id' t).const_mul value).congr_deriv (mul_one value)
    | line a0 a1 =>
      refine (((hasDerivAt_id' t).const_mul a0).add
        ((hasDerivAt_pow 2 t).const_mul (a1 / 2))).congr_deriv ?_
      show _ = a0 + t * a1
      norm_num
      ring
    | mix gains =>
      rw [sample_mix]
      exact HasDerivAt.fun_sum fun i _ => (hF i t).const_mul (gains i)
    | gain factor => exact (hF 0 t).mul_const factor
    | shift offset =>
      refine HasDerivAt.sub_const _ ?_
      exact (hF 0 (t + offset)).comp_add_const t offset
    | delay seconds =>
      refine HasDerivAt.sub_const _ ?_
      exact (hF 0 (t - seconds)).comp_sub_const t seconds
    | range low high =>
      rw [sample_range]
      refine (((hF 0 t).const_mul ((high - low) / 2)).add
        ((hasDerivAt_id' t).const_mul ((high + low) / 2))).congr_deriv ?_
      rw [mul_one]

/-- It starts from zero if those of the inputs do. -/
theorem primitive_zero (hu : u.IsElementary) (h0 : ∀ i, F i 0 = 0) : u.primitive F 0 = 0 := by
  cases hu with
  | sine frequency phase => exact sinePrimitive_zero frequency phase
  | affine h => cases h <;> simp [primitive, h0]

/-- What an affine generator makes of affine functions is affine. -/
theorem IsAffine.sample (hu : u.IsAffine) {a b : Fin n → ℝ} (hf : ∀ i t, f i t = a i + b i * t) :
    ∃ c d, ∀ t, u.sample later f t = c + d * t := by
  cases hu with
  | constant value => exact ⟨value, 0, fun t => by show value = _; ring⟩
  | line a0 a1 => exact ⟨a0, a1, fun t => by show a0 + t * a1 = _; ring⟩
  | mix gains =>
    refine ⟨∑ i, gains i * a i, ∑ i, gains i * b i, fun t => ?_⟩
    rw [sample_mix, Finset.sum_mul, ← Finset.sum_add_distrib]
    exact Finset.sum_congr rfl fun i _ => by rw [hf]; ring
  | gain factor =>
    exact ⟨a 0 * factor, b 0 * factor, fun t => by show f 0 t * factor = _; rw [hf]; ring⟩
  | shift offset =>
    exact ⟨a 0 + b 0 * offset, b 0, fun t => by show f 0 (t + offset) = _; rw [hf]; ring⟩
  | delay seconds =>
    exact ⟨a 0 - b 0 * seconds, b 0, fun t => by show f 0 (t - seconds) = _; rw [hf]; ring⟩
  | range low high =>
    refine ⟨(high - low) / 2 * a 0 + (high + low) / 2, (high - low) / 2 * b 0, fun t => ?_⟩
    rw [sample_range, hf]
    ring

/-- There is a rule for every elementary generator. -/
theorem IsElementary.hasRule (hu : u.IsElementary) : u.hasRule = true := by
  cases hu with
  | sine => rfl
  | affine h => cases h <;> rfl

end Ugen

/-! ### Trees of elementary generators -/

namespace Signal

variable {s : Signal ℝ}

theorem succeeds_integral (hs : s.All fun _ u => u.IsElementary) : Succeeds reels s.integral :=
  succeeds_integral_of_hasRule fun _ hp => (hs.of_mem_descent hp).hasRule

theorem hasDerivAt_primitive (hs : s.All fun _ u => u.IsElementary) (t : ℝ) :
    HasDerivAt s.primitive (s.sample later t) t := by
  induction s generalizing t with
  | node id ugen inputs ih =>
    exact Ugen.hasDerivAt_primitive hs.1 (fun i t => ih i (hs.2 i) t) t

theorem primitive_zero (hs : s.All fun _ u => u.IsElementary) : s.primitive 0 = 0 := by
  induction s with
  | node id ugen inputs ih => exact Ugen.primitive_zero hs.1 fun i => ih i (hs.2 i)

theorem sample_affine (later : Reels ℝ) (hs : s.All fun _ u => u.IsAffine) :
    ∃ c d, ∀ t, s.sample later t = c + d * t := by
  induction s with
  | node id ugen inputs ih =>
    choose a b hab using fun i => ih i (hs.2 i)
    exact hs.1.sample hab

end Signal

/-- **The trapezoid rule** is exact for affine functions. -/
theorem sub_eq_of_hasDerivAt_affine {F f : ℝ → ℝ} {c d : ℝ} (hf : ∀ t, f t = c + d * t)
    (hF : ∀ t, HasDerivAt F (f t) t) (a b : ℝ) : F b - F a = (b - a) * (f a + f b) / 2 := by
  -- what is left of `F` without its quadratic part has the derivative zero
  have hrest : ∀ t, HasDerivAt (fun u => F u - (c * u + d / 2 * u ^ 2)) 0 t := by
    intro t
    refine ((hF t).sub (((hasDerivAt_id' t).const_mul c).add
      ((hasDerivAt_pow 2 t).const_mul (d / 2)))).congr_deriv ?_
    rw [hf]
    norm_num
    ring
  have hconst := is_const_of_deriv_eq_zero (fun t => (hrest t).differentiableAt)
    (fun t => (hrest t).deriv) a b
  rw [hf, hf]
  linear_combination -hconst

/-- **The integral of a tree of elementary generators is its antiderivative.** Integrating succeeds,
and what is wired starts from zero and has at all times the derivative that the tree plays, whatever
becomes of the reels. Without sines the integral over any span is that of the trapezoid rule. -/
theorem Signal.integral_antiderivative {s : Signal ℝ} (hs : s.All fun _ u => u.IsElementary)
    (reels : Reels ℝ) (next : ℕ) :
    ∃ F next', (s.integral reels next).result = .ok (F, next') ∧ ∀ later,
      F.sample later 0 = 0 ∧
      (∀ t, HasDerivAt (F.sample later) (s.sample later t) t) ∧
      ((s.All fun _ u => u.IsAffine) → ∀ a b, F.sample later b - F.sample later a =
        (b - a) * (s.sample later a + s.sample later b) / 2) := by
  obtain ⟨F, next', hF⟩ := succeeds_integral hs next
  have hplays : ∀ later, F.sample later = s.primitive :=
    fun later => funext fun t => ensures_integral s next F next' hF later t
  refine ⟨F, next', hF, fun later => ?_⟩
  rw [hplays]
  refine ⟨primitive_zero hs, hasDerivAt_primitive hs, fun haffine => ?_⟩
  obtain ⟨c, d, hcd⟩ := sample_affine later haffine
  exact sub_eq_of_hasDerivAt_affine hcd (hasDerivAt_primitive hs)

/-- A delayed sine of negative frequency, stretched, and a line that is shifted. -/
theorem Signal.integral_antiderivative_vibrato_and_ramp :
    (∃ F next', ((node 2 (.range 1 3) fun _ => node 1 (.delay 2) fun _ =>
        node 0 (.sine (-5) 1) Fin.elim0).integral (#[] : Reels ℝ) 3).result = .ok (F, next') ∧
      F.sample #[] 0 = 0 ∧ HasDerivAt (F.sample #[]) (Real.sin 1 + 2) 2) ∧
    ∃ F next', ((node 1 (.shift 2) fun _ =>
        node 0 (.line 1 3) Fin.elim0).integral (#[] : Reels ℝ) 2).result = .ok (F, next') ∧
      F.sample #[] 2 - F.sample #[] 0 = 20 := by
  constructor
  · have hs : (node 2 (.range (1 : ℝ) 3) fun _ => node 1 (.delay 2) fun _ =>
        node 0 (.sine (-5) 1) Fin.elim0).All fun _ u => u.IsElementary :=
      ⟨.affine (.range 1 3), fun _ => ⟨.affine (.delay 2), fun _ =>
        ⟨.sine (-5) 1, fun i => i.elim0⟩⟩⟩
    obtain ⟨F, next', hF, h⟩ := integral_antiderivative hs #[] 3
    refine ⟨F, next', hF, (h #[]).1, ((h #[]).2.1 2).congr_deriv ?_⟩
    rw [sample_node, Ugen.sample_range]
    show (3 - 1) / 2 * Real.sin (2.0 * Real.pi * -5 * (2 - 2) + 1) + (3 + 1) / 2 = Real.sin 1 + 2
    norm_num
  · have hs : (node 1 (.shift (2 : ℝ)) fun _ =>
        node 0 (.line 1 3) Fin.elim0).All fun _ u => u.IsAffine :=
      ⟨.shift 2, fun _ => ⟨.line 1 3, fun i => i.elim0⟩⟩
    obtain ⟨F, next', hF, h⟩ := integral_antiderivative
      (s := node 1 (.shift (2 : ℝ)) fun _ => node 0 (.line 1 3) Fin.elim0)
      ⟨.affine (.shift 2), fun _ => ⟨.affine (.line 1 3), fun i => i.elim0⟩⟩ #[] 2
    refine ⟨F, next', hF, ?_⟩
    rw [(h #[]).2.2 hs 0 2]
    show (2 - 0 : ℝ) * ((1 + (0 + 2) * 3) + (1 + (2 + 2) * 3)) / 2 = 20
    norm_num

end Polyphony
