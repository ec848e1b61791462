import Polyphony.Proofs.Exact
import Polyphony.Proofs.Signal.Wiring
import Polyphony.Signal.Integral

/-!
# Antiderivatives as functions of time

Integrating a signal wires another signal. What that plays in exact arithmetic is told here without
any wiring.

* `Signal.Plays`: a signal plays a function of time, whatever becomes of the reels.
* `Ugen.primitive`, `Signal.primitive`: the functions that antiderivatives play.
* `Signal.ensures_integral`: **whatever a signal is integrated to plays its `primitive`**, rule by
  rule (`Ugen.ensures_integral`).
-/

namespace Polyphony

open Wiring Exact

variable {reels later : Reels ℝ} {F G : Signal ℝ} {t : ℝ}

/-! ### Samples of what is placed -/

theorem Signal.sample_node (id : ℕ) {n : ℕ} (ugen : Ugen ℝ n) (inputs : Fin n → Signal ℝ) :
    (Signal.node id ugen inputs).sample later t =
      ugen.sample later (fun i => (inputs i).sample later) t := rfl

namespace Ugen

variable {n : ℕ}

theorem sample_sine (frequency phase : ℝ) (f : Fin 0 → ℝ → ℝ) (t : ℝ) :
    (sine frequency phase).sample later f t =
      Real.sin (2 * Real.pi * frequency * t + phase) := by
  show Real.sin (2.0 * Real.pi * frequency * t + phase) = _
  rw [two_lit]

theorem sample_mix (gains : Fin n → ℝ) (f : Fin n → ℝ → ℝ) (t : ℝ) :
    (mix gains).sample later f t = ∑ i, gains i * f i t := foldl_add_eq n _

theorem sample_gate (span : Span ℝ) (f : Fin 1 → ℝ → ℝ) (t : ℝ) :
    (gate span).sample later f t = if span.start ≤ t ∧ t < span.finish then f 0 t else 0 := by
  simp only [sample, Span.contains, zero_lit, Bool.and_eq_true, le_iff, lt_iff]

theorem sample_range (low high : ℝ) (f : Fin 1 → ℝ → ℝ) (t : ℝ) :
    (range low high).sample later f t = (high - low) / 2 * f 0 t + (high + low) / 2 := by
  show (f 0 t + 1.0) / 2.0 * (high - low) + low = _
  rw [one_lit, two_lit]
  ring

end Ugen

/-! ### The rule of each generator -/

/-- The signal has the values of a function, also when the reels have changed. -/
def Signal.Plays (F : Signal ℝ) (f : ℝ → ℝ) : Prop := ∀ later t, F.sample later t = f t

theorem ensures_line (a0 a1 : ℝ) :
    Ensures reels (Signal.line a0 a1) fun F => F.Plays fun t => a0 + t * a1 :=
  ensures_place fun _ _ _ => rfl

theorem ensures_constant (value : ℝ) :
    Ensures reels (Signal.constant value) fun F => F.Plays fun _ => value :=
  ensures_place fun _ _ _ => rfl

theorem ensures_mix_pair {f g : ℝ → ℝ} (hF : F.Plays f) (hG : G.Plays g) (a b : ℝ) :
    Ensures reels (Signal.mix #[(a, F), (b, G)]) fun M => M.Plays fun t => a * f t + b * g t := by
  refine ensures_place fun id later t => ?_
  rw [Signal.sample_node, Ugen.sample_mix]
  show ∑ i : Fin 2, _ = _
  rw [Fin.sum_univ_two]
  show a * F.sample later t + b * G.sample later t = _
  rw [hF, hG]

theorem ensures_lessValue {f : ℝ → ℝ} (hF : F.Plays f) (value : ℝ) :
    Ensures reels (lessValue F value) fun M => M.Plays fun t => f t - value := by
  refine (ensures_constant value).bind fun C hC => ?_
  refine (ensures_mix_pair hF hC 1.0 (-1.0)).mono fun M hM later t => ?_
  rw [hM, one_lit]
  ring

theorem ensures_shift {f : ℝ → ℝ} (hF : F.Plays f) (offset : ℝ) :
    Ensures reels (F.shift offset) fun M => M.Plays fun t => f (t + offset) :=
  ensures_place fun _ later t => hF later (t + offset)

theorem ensures_delay {f : ℝ → ℝ} (hF : F.Plays f) (seconds : ℝ) :
    Ensures reels (F.delay seconds) fun M => M.Plays fun t => f (t - seconds) :=
  ensures_place fun _ later t => hF later (t - seconds)

theorem ensures_gain {f : ℝ → ℝ} (hF : F.Plays f) (factor : ℝ) :
    Ensures reels (F.gain factor) fun M => M.Plays fun t => f t * factor :=
  ensures_place fun _ later t => congrArg (· * factor) (hF later t)

theorem ensures_gate {f : ℝ → ℝ} (hF : F.Plays f) (span : Span ℝ) :
    Ensures reels (Signal.through (.gate span) F) fun M => M.Plays fun t =>
      if span.start ≤ t ∧ t < span.finish then f t else 0 := by
  refine ensures_place fun id later t => ?_
  rw [Signal.sample_node, Ugen.sample_gate, hF]

/-- The antiderivative of a sine that starts from zero. -/
noncomputable def sinePrimitive (frequency phase t : ℝ) : ℝ :=
  if frequency = 0 then Real.sin phase * t
  else (Real.cos phase - Real.cos (2 * Real.pi * frequency * t + phase)) /
    (2 * Real.pi * frequency)

theorem sinePrimitive_zero (frequency phase : ℝ) : sinePrimitive frequency phase 0 = 0 := by
  unfold sinePrimitive
  split <;> simp

theorem ensures_sineIntegral (frequency phase : ℝ) :
    Ensures reels (sineIntegral frequency phase) fun F => F.Plays (sinePrimitive frequency phase) := by
  unfold sineIntegral
  by_cases hf : frequency = 0
  · rw [if_pos (by simpa using hf)]
    refine (ensures_enter _).bind fun _ _ => (ensures_line _ _).mono fun F hF later t => ?_
    rw [hF, sinePrimitive, if_pos hf, zero_lit, sin_eq]
    ring
  · rw [if_neg (by simpa using hf)]
    -- a sine a quarter of a turn ahead is the cosine
    have hsine : Ensures reels (Signal.source (.sine frequency (phase + Scalar.pi / 2.0)))
        fun S => S.Plays fun t => Real.cos (2 * Real.pi * frequency * t + phase) := by
      refine ensures_place fun id later t => ?_
      rw [Signal.sample_node, Ugen.sample_sine, two_lit, pi_eq, ← add_assoc, Real.sin_add_pi_div_two]
    refine hsine.bind fun S hS => (ensures_gain hS _).bind fun M hM =>
      (ensures_constant _).bind fun C hC => ?_
    refine (ensures_mix_pair hM hC _ _).mono fun F hF later t => ?_
    rw [hF, sinePrimitive, if_neg hf, one_lit, two_lit, pi_eq, cos_eq]
    ring

/-- **The antiderivative of a generator**, given those of its inputs. -/
noncomputable def Ugen.primitive : {n : ℕ} → Ugen ℝ n → (Fin n → ℝ → ℝ) → ℝ → ℝ
  | _, .constant value, _, t => value * t
  | _, .line a0 a1, _, t => a0 * t + a1 / 2 * t ^ 2
  | _, .sine frequency phase, _, t => sinePrimitive frequency phase t
  | _, .mix gains, F, t => ∑ i, gains i * F i t
  | _, .gain factor, F, t => only F t * factor
  | _, .shift offset, F, t => only F (t + offset) - only F offset
  | _, .delay seconds, F, t => only F (t - seconds) - only F (-seconds)
  | _, .gate span, F, t =>
    if span.start ≤ t ∧ t < span.finish then only F t - only F span.start else 0
  | _, .range low high, F, t => (high - low) / 2 * only F t + (high + low) / 2 * t
  | _, _, _, _ => 0

/-- **What the rule of a generator wires** has the values of its antiderivative. -/
theorem Ugen.ensures_integral {n : ℕ} (u : Ugen ℝ n) {inputs : Fin n → Wiring ℝ (Signal ℝ)}
    {F : Fin n → ℝ → ℝ} (h : ∀ i, Ensures reels (inputs i) fun G => G.Plays (F i)) :
    Ensures reels (u.integral inputs) fun G => G.Plays (u.primitive F) := by
  cases u with
  | constant value =>
    refine (ensures_line _ _).mono fun G hG later t => ?_
    rw [hG, zero_lit]
    show 0 + t * value = value * t
    ring
  | line a0 a1 =>
    refine ensures_place fun id later t => ?_
    show t * t * (a1 / 2.0) + t * a0 + 0.0 = a0 * t + a1 / 2 * t ^ 2
    rw [zero_lit, two_lit]
    ring
  | sine frequency phase => exact ensures_sineIntegral frequency phase
  | mix gains =>
    refine (Ensures.ofFnM h).bind fun v hv => ensures_place fun id later t => ?_
    rw [Signal.sample_node, Ugen.sample_mix]
    exact Finset.sum_congr rfl fun i _ => by rw [hv i]
  | gain factor => exact (h 0).bind fun G hG => ensures_gain hG factor
  | shift offset =>
    refine (h 0).bind fun G hG => (ensures_shift hG offset).bind fun S hS =>
      ensures_read.bind fun r _ => ?_
    -- the value that is taken off is read from `G` while wiring
    rw [hG]
    exact ensures_lessValue hS _
  | delay seconds =>
    refine (h 0).bind fun G hG => (ensures_delay hG seconds).bind fun S hS =>
      ensures_read.bind fun r _ => ?_
    rw [hG]
    exact ensures_lessValue hS _
  | gate span =>
    refine (h 0).bind fun G hG => ensures_read.bind fun r _ => ?_
    rw [hG]
    exact (ensures_lessValue hG _).bind fun L hL => ensures_gate hL span
  | range low high =>
    refine (h 0).bind fun G hG => (ensures_line _ _).bind fun B hB => ?_
    refine (ensures_mix_pair hG hB _ _).mono fun M hM later t => ?_
    rw [hM, zero_lit, one_lit, two_lit]
    show _ = (high - low) / 2 * F 0 t + (high + low) / 2 * t
    ring
  | _ => exact ensures_throw _

/-- The antiderivative of a signal, where it has one. -/
noncomputable def Signal.primitive : Signal ℝ → ℝ → ℝ
  | node _ ugen inputs => ugen.primitive fun i => (inputs i).primitive

/-- **What a signal is integrated to** has the values of its antiderivative. -/
theorem Signal.ensures_integral (s : Signal ℝ) :
    Ensures reels s.integral fun F => F.Plays s.primitive := by
  induction s with
  | node id ugen inputs ih => exact ugen.ensures_integral ih

end Polyphony
