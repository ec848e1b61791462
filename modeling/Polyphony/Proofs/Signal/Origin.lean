import Polyphony.Proofs.Signal.Integral

/-!
# Antiderivatives at the origin

A gate takes off the value at its opening, not the value at the origin, so an antiderivative need
not start from zero where a gate is open at the origin.

* `Signal.atOrigin`: what the antiderivative of a signal is at the origin. Shifts and delays take off
  what is there; mixers, gains and ranges pass it on; a gate that is open around the origin **leaves
  the integral from its opening to the origin**.
* `Signal.OpenAtOrigin`: such a gate is heard through mixers, gains and ranges alone.
* `Signal.integral_atOrigin`: every antiderivative has that value there, which is zero unless such a
  gate is heard.
-/

namespace Polyphony

open Wiring

/-- The value at the origin of the antiderivative of a generator, given the antiderivatives of its
inputs and their values at the origin. -/
noncomputable def Ugen.atOrigin : {n : ℕ} → Ugen ℝ n → (Fin n → ℝ → ℝ) → (Fin n → ℝ) → ℝ
  | _, .mix gains, _, values => ∑ i, gains i * values i
  | _, .gain factor, _, values => only values * factor
  | _, .range low high, _, values => (high - low) / 2 * only values
  | _, .gate span, F, _ =>
    if span.start < 0 ∧ 0 < span.finish then only F 0 - only F span.start else 0
  | _, _, _, _ => 0

theorem Ugen.primitive_zero_eq {n : ℕ} (u : Ugen ℝ n) {F : Fin n → ℝ → ℝ} {values : Fin n → ℝ}
    (h : ∀ i, F i 0 = values i) : u.primitive F 0 = u.atOrigin F values := by
  cases u with
  | mix gains => exact Finset.sum_congr rfl fun i _ => by rw [h]
  | gate span =>
    show (if span.start ≤ 0 ∧ 0 < span.finish then F 0 0 - F 0 span.start else 0) =
      if span.start < 0 ∧ 0 < span.finish then F 0 0 - F 0 span.start else 0
    rcases eq_or_ne span.start 0 with h0 | h0
    · -- a gate that opens at the origin leaves nothing there
      simp [h0]
    · simp [le_iff_lt_or_eq, h0]
  | sine frequency phase => exact sinePrimitive_zero frequency phase
  | _ => simp [primitive, atOrigin, h]

/-- **The value at the origin of the antiderivative of a signal.** -/
noncomputable def Signal.atOrigin : Signal ℝ → ℝ
  | node _ ugen inputs =>
    ugen.atOrigin (fun i => (inputs i).primitive) fun i => (inputs i).atOrigin

theorem Signal.primitive_zero_eq (s : Signal ℝ) : s.primitive 0 = s.atOrigin := by
  induction s with
  | node id ugen inputs ih => exact ugen.primitive_zero_eq ih

/-- **A gate that is open around the origin** is heard through mixers, gains and ranges alone. -/
inductive Signal.OpenAtOrigin : Signal ℝ → Prop
  | gate {id : ℕ} {span : Span ℝ} {inputs : Fin 1 → Signal ℝ} (hstart : span.start < 0)
      (hfinish : 0 < span.finish) : OpenAtOrigin (node id (.gate span) inputs)
  | mix {id n : ℕ} {gains : Fin n → ℝ} {inputs : Fin n → Signal ℝ} (i : Fin n)
      (h : OpenAtOrigin (inputs i)) : OpenAtOrigin (node id (.mix gains) inputs)
  | gain {id : ℕ} {factor : ℝ} {inputs : Fin 1 → Signal ℝ} (h : OpenAtOrigin (inputs 0)) :
      OpenAtOrigin (node id (.gain factor) inputs)
  | range {id : ℕ} {low high : ℝ} {inputs : Fin 1 → Signal ℝ} (h : OpenAtOrigin (inputs 0)) :
      OpenAtOrigin (node id (.range low high) inputs)

theorem Signal.atOrigin_eq_zero {s : Signal ℝ} (hs : ¬ s.OpenAtOrigin) : s.atOrigin = 0 := by
  induction s with
  | node id ugen inputs ih =>
    cases ugen with
    | mix gains =>
      show ∑ i, gains i * (inputs i).atOrigin = 0
      refine Finset.sum_eq_zero fun i _ => ?_
      rw [ih i fun h => hs (.mix i h), mul_zero]
    | gain factor =>
      show (inputs 0).atOrigin * factor = 0
      rw [ih 0 fun h => hs (.gain h), zero_mul]
    | range low high =>
      show (high - low) / 2 * (inputs 0).atOrigin = 0
      rw [ih 0 fun h => hs (.range h), mul_zero]
    | gate span => exact if_neg fun h => hs (.gate h.1 h.2)
    | _ => rfl

/-- **What is integrated has its value at the origin**: what the gates leave that are open around it
and heard through mixers, gains and ranges alone. Where there are none, it starts from zero. -/
theorem Signal.integral_atOrigin {s F : Signal ℝ} {reels : Reels ℝ} {next next' : ℕ}
    (h : (s.integral reels next).result = .ok (F, next')) (later : Reels ℝ) :
    F.sample later 0 = s.atOrigin ∧ (¬ s.OpenAtOrigin → F.sample later 0 = 0) := by
  have horigin : F.sample later 0 = s.atOrigin := by
    rw [ensures_integral s next F next' h later 0, primitive_zero_eq]
  exact ⟨horigin, fun hs => horigin.trans (atOrigin_eq_zero hs)⟩

/-- A constant through a gate is integrated. -/
theorem Signal.succeeds_gated_constant (reels : Reels ℝ) (id id' : ℕ) (span : Span ℝ) (value : ℝ) :
    Succeeds reels (node id (.gate span) fun _ => node id' (.constant value) Fin.elim0).integral :=
  Succeeds.bind (succeeds_place _ _) fun _ => succeeds_read.bind fun _ =>
    Succeeds.bind (Succeeds.bind (succeeds_place _ _) fun _ => succeeds_place _ _) fun _ =>
      succeeds_place _ _

/-- The span from a second before the origin to a second after it. -/
def Span.aroundOrigin : Span ℝ := ⟨-1, 1, by simp [Scalar.lt]⟩

/-- **An open gate leaves something at the origin**: a constant one is integrated from the opening
on. So a signal with a gate need not be integrated from zero. -/
theorem Signal.integral_not_zero_at_origin :
    ¬ ∀ (id : ℕ) (span : Span ℝ) (inputs : Fin 1 → Signal ℝ) (F : Signal ℝ) (reels : Reels ℝ)
      (next next' : ℕ), ((node id (.gate span) inputs).integral reels next).result = .ok (F, next') →
        F.sample reels 0 = 0 := by
  intro h
  obtain ⟨F, next', hF⟩ := succeeds_gated_constant #[] 1 0 Span.aroundOrigin 1 2
  have hzero := h 1 _ _ F #[] 2 next' hF
  rw [ensures_integral _ 2 F next' hF #[] 0] at hzero
  have hone : (if (-1 : ℝ) ≤ 0 ∧ (0 : ℝ) < 1 then 1 * 0 - 1 * (-1) else (0 : ℝ)) = 0 := hzero
  norm_num at hone

/-- The same gate, and one that closes at the origin. -/
theorem Signal.integral_atOrigin_two_gates :
    (∃ F next', ((node 1 (.gate Span.aroundOrigin) fun _ =>
        node 0 (.constant 2) Fin.elim0).integral (#[] : Reels ℝ) 2).result = .ok (F, next') ∧
      F.sample #[] 0 = 2) ∧
    ∃ F next', ((node 1 (.gate ⟨-1, 0, by simp [Scalar.lt]⟩) fun _ =>
        node 0 (.constant 2) Fin.elim0).integral (#[] : Reels ℝ) 2).result = .ok (F, next') ∧
      F.sample #[] 0 = 0 := by
  constructor
  · obtain ⟨F, next', hF⟩ := succeeds_gated_constant #[] 1 0 Span.aroundOrigin 2 2
    refine ⟨F, next', hF, ?_⟩
    rw [(integral_atOrigin hF #[]).1]
    show (if (-1 : ℝ) < 0 ∧ (0 : ℝ) < 1 then 2 * 0 - 2 * (-1) else (0 : ℝ)) = 2
    norm_num
  · obtain ⟨F, next', hF⟩ :=
      succeeds_gated_constant #[] 1 0 ⟨-1, 0, by simp [Scalar.lt]⟩ 2 2
    refine ⟨F, next', hF, (integral_atOrigin hF #[]).2 fun h => ?_⟩
    cases h with
    | gate hstart hfinish => exact lt_irrefl 0 hfinish

end Polyphony
