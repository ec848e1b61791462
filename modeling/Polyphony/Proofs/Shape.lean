import Polyphony.Proofs.Binary64.Sums
import Polyphony.Proofs.Curve

/-!
# The shape of an envelope

An envelope is refused exactly if one of its stages is negative; no gate is refused afterwards, since times
that are summed up do not go back. What is not refused plays its curve stage by stage.

* `Scalar.AddsUp`: sums do not go back, neither on the real numbers nor on doubles.
* `Envelope.ends_toSignal`: **which envelopes are refused.**
* `Envelope.continuous_curve`: the curve does not jump if it rises and falls in some time.
* `Envelope.refused_or_plays_curve`: an envelope, as it is documented.
-/

namespace Polyphony

open Scalar Wiring Exact

/-! ### Which envelopes are refused -/

section Refusal

variable {α : Type} [Scalar α] {reels : Reels α}

/-- Adding what is not negative leads neither below zero nor back. -/
def Scalar.AddsUp (α : Type) [Scalar α] : Prop :=
  ∀ x y : α, lt x 0.0 = false → lt y 0.0 = false → lt (x + y) 0.0 = false ∧ lt (x + y) x = false

theorem addsUp_real : AddsUp ℝ := by
  intro x y hx hy
  simp only [← Bool.not_eq_true, lt_iff, zero_lit, not_lt] at *
  exact ⟨add_nonneg hx hy, le_add_of_nonneg_right hy⟩

theorem addsUp_double : AddsUp Float := by
  intro x y hx hy
  obtain ⟨hzero, hback⟩ := Binary64.not_add_lt (of_decide_eq_false hx) (of_decide_eq_false hy)
  exact ⟨decide_eq_false hzero, decide_eq_false hback⟩

theorem succeeds_gate {start finish : α} (h : lt finish start = false) (s : Signal α) :
    Succeeds reels (s.gate start finish) := by
  unfold Signal.gate Span.make?
  rw [dif_pos h]
  exact succeeds_place _ _

namespace Envelope

/-- The fault of the first negative stage. -/
def refusal (e : Envelope α) : Option (Fault α) :=
  (e.stages.find? fun (_, seconds) => lt seconds 0.0).map fun (stage, seconds) => .negativeStage stage seconds

/-- **Which envelopes are refused**: those with a negative stage. -/
theorem ends_toSignal (hadd : AddsUp α) (e : Envelope α) : Ends reels e.toSignal e.refusal := by
  unfold toSignal refusal
  cases hfind : e.stages.find? fun (_, seconds) => lt seconds 0.0 with
  | some stage => exact ends_throw _
  | none =>
    have hstages : ∀ stage ∈ e.stages, lt stage.2 0.0 = false := by
      simpa using List.find?_eq_none.1 hfind
    obtain ⟨hattack, hdecay, hsustain, hrelease⟩ : lt e.attack 0.0 = false ∧ lt e.decay 0.0 = false ∧
        lt e.sustain 0.0 = false ∧ lt e.release 0.0 = false := by
      simpa [stages] using hstages
    obtain ⟨hdecayEnd, hdecayBack⟩ := hadd _ _ hattack hdecay
    obtain ⟨hsustainEnd, hsustainBack⟩ := hadd _ _ hdecayEnd hsustain
    obtain ⟨-, hreleaseBack⟩ := hadd _ _ hsustainEnd hrelease
    refine (succeeds_lineThrough _ _ _ _).bind fun _ => (succeeds_gate hattack _).bind fun _ => ?_
    refine (succeeds_lineThrough _ _ _ _).bind fun _ => (succeeds_gate hdecayBack _).bind fun _ => ?_
    refine Succeeds.bind (succeeds_place _ _) fun _ => (succeeds_gate hsustainBack _).bind fun _ => ?_
    refine (succeeds_lineThrough _ _ _ _).bind fun _ => (succeeds_gate hreleaseBack _).bind fun _ => ?_
    exact succeeds_place _ _

theorem refusal_eq_none_iff (e : Envelope α) : e.refusal = none ↔
    ¬ (lt e.attack 0.0 = true ∨ lt e.decay 0.0 = true ∨ lt e.sustain 0.0 = true ∨
      lt e.release 0.0 = true) := by
  simp [refusal, stages]

/-- **A refusal, told from the result**: it is a fault of the configuration. Otherwise there is a signal. -/
theorem result_toSignal (hadd : AddsUp α) (e : Envelope α) (reels : Reels α) (next : ℕ) :
    ((∃ fault, (e.toSignal reels next).result = .error fault ∧ fault.kind = .configuration) ↔
      lt e.attack 0.0 = true ∨ lt e.decay 0.0 = true ∨ lt e.sustain 0.0 = true ∨ lt e.release 0.0 = true) ∧
    (¬ (lt e.attack 0.0 = true ∨ lt e.decay 0.0 = true ∨ lt e.sustain 0.0 = true ∨
      lt e.release 0.0 = true) → ∃ env next', (e.toSignal reels next).result = .ok (env, next')) := by
  have hends : Ends reels e.toSignal e.refusal := ends_toSignal hadd e
  obtain ⟨herror, hok⟩ := hends.result_iff next
  rw [← refusal_eq_none_iff, hok]
  refine ⟨?_, id⟩
  rw [← not_iff_not, ← refusal_eq_none_iff]
  cases hrefusal : e.refusal with
  | none => simp [herror, hrefusal]
  | some fault =>
    have hkind : fault.kind = .configuration := by
      obtain ⟨stage, -, rfl⟩ := Option.map_eq_some_iff.1 hrefusal
      rfl
    simp [herror, hrefusal, hkind]

end Envelope

end Refusal

/-! ### The curve, stage by stage -/

namespace Envelope

variable {e : Envelope ℝ} {t : ℝ}

theorem curve_decay (he : e.IsOrdered) (h0 : e.attack ≤ t) (h : t < e.attack + e.decay) :
    e.curve t = 1 + (e.level - 1) * (t - e.attack) / e.decay := by
  rw [curve, stageAt_of_mem he (show t ∈ (e.schedule he).stage 1 from ⟨h0, h⟩), mul_div_assoc]

theorem curve_sustain (he : e.IsOrdered) (h0 : e.attack + e.decay ≤ t)
    (h : t < e.attack + e.decay + e.sustain) : e.curve t = e.level := by
  rw [curve, stageAt_of_mem he (show t ∈ (e.schedule he).stage 2 from ⟨h0, h⟩)]

theorem curve_release (he : e.IsOrdered) (h0 : e.attack + e.decay + e.sustain ≤ t)
    (h : t < e.attack + e.decay + e.sustain + e.release) :
    e.curve t = e.level * (1 - (t - e.attack - e.decay - e.sustain) / e.release) := by
  rw [curve, stageAt_of_mem he (show t ∈ (e.schedule he).stage 3 from ⟨h0, h⟩), sub_sub, sub_sub, ← add_assoc]

/-- The curve, told from the last corner that is over. -/
theorem curve_eq_ite (e : Envelope ℝ) : e.curve = fun t =>
    if 0 ≤ t then
      if e.attack ≤ t then
        if e.attack + e.decay ≤ t then
          if e.attack + e.decay + e.sustain ≤ t then
            if e.finish ≤ t then 0
            else e.level * (1 - (t - (e.attack + e.decay + e.sustain)) / e.release)
          else e.level
        else 1 + (e.level - 1) * ((t - e.attack) / e.decay)
      else t / e.attack
    else 0 := by
  funext t
  unfold curve stageAt
  simp only [← not_le, ite_not]
  split_ifs <;> rfl

/-- Two functions that meet at a time can be changed for one another there. -/
theorem continuous_change {before after : ℝ → ℝ} {corner : ℝ} (hbefore : Continuous before)
    (hafter : Continuous after) (hmeet : before corner = after corner) :
    Continuous fun t => if corner ≤ t then after t else before t := by
  refine hafter.if_le hbefore continuous_const continuous_id ?_
  rintro t rfl
  exact hmeet.symm

/-- **The curve does not jump** if it rises, falls to the level and falls to zero in some time each. -/
theorem continuous_curve (he : e.IsOrdered) (hattack : 0 < e.attack) (hdecay : 0 < e.decay)
    (hrelease : 0 < e.release) : Continuous e.curve := by
  have hdecayEnd : e.attack < e.attack + e.decay := lt_add_of_pos_right _ hdecay
  have hsustainEnd : e.attack + e.decay ≤ e.attack + e.decay + e.sustain :=
    le_add_of_nonneg_right he.sustain_nonneg
  have hlast : e.finish - (e.attack + e.decay + e.sustain) = e.release := add_sub_cancel_left _ _
  have hreleaseEnd : e.attack + e.decay + e.sustain < e.finish := sub_pos.1 (hlast ▸ hrelease)
  rw [curve_eq_ite]
  refine continuous_change continuous_const (continuous_change (by fun_prop) (continuous_change (by fun_prop)
    (continuous_change continuous_const (continuous_change (by fun_prop) continuous_const ?_) ?_) ?_) ?_) ?_
  -- the corners, the last one first
  · rw [hlast, div_self hrelease.ne', sub_self, mul_zero]
  · rw [if_neg (not_le.2 hreleaseEnd), sub_self, zero_div, sub_zero, mul_one]
  · rw [add_sub_cancel_left, div_self hdecay.ne', mul_one, add_sub_cancel]
    split_ifs with hnone hover
    · exact absurd (hreleaseEnd.trans_le hover) (not_lt.2 hsustainEnd)
    · rw [le_antisymm hnone hsustainEnd, sub_self, zero_div, sub_zero, mul_one]
    · rfl
  · rw [if_neg (not_le.2 hdecayEnd), div_self hattack.ne', sub_self, zero_div, mul_zero, add_zero]
  · rw [if_neg (not_le.2 hattack), zero_div]

/-- **An envelope, as it is documented.** It is refused, as a fault of the configuration, exactly if one of
its stages is negative; this holds for doubles as in exact arithmetic. Otherwise, in exact arithmetic, it
rises from zero to one, falls to its level, holds it, and falls to zero, each in its stage; at all other
times it is zero. It stays between zero and one if its level does, and it does not jump if it rises and falls
in some time each. -/
theorem refused_or_plays_curve :
    (∀ (e : Envelope Float) (reels : Reels Float) (next : ℕ),
      ((∃ fault, (e.toSignal reels next).result = .error fault ∧ fault.kind = .configuration) ↔
        e.attack < 0.0 ∨ e.decay < 0.0 ∨ e.sustain < 0.0 ∨ e.release < 0.0) ∧
      (¬ (e.attack < 0.0 ∨ e.decay < 0.0 ∨ e.sustain < 0.0 ∨ e.release < 0.0) →
        ∃ env next', (e.toSignal reels next).result = .ok (env, next'))) ∧
    ∀ (e : Envelope ℝ) (reels : Reels ℝ) (next : ℕ),
      ((∃ fault, (e.toSignal reels next).result = .error fault ∧ fault.kind = .configuration) ↔
        e.attack < 0 ∨ e.decay < 0 ∨ e.sustain < 0 ∨ e.release < 0) ∧
      (¬ (e.attack < 0 ∨ e.decay < 0 ∨ e.sustain < 0 ∨ e.release < 0) →
        ∃ env next', (e.toSignal reels next).result = .ok (env, next') ∧ ∀ later,
          (∀ t, 0 ≤ t → t < e.attack → env.sample later t = t / e.attack) ∧
          (∀ t, e.attack ≤ t → t < e.attack + e.decay →
            env.sample later t = 1 + (e.level - 1) * (t - e.attack) / e.decay) ∧
          (∀ t, e.attack + e.decay ≤ t → t < e.attack + e.decay + e.sustain →
            env.sample later t = e.level) ∧
          (∀ t, e.attack + e.decay + e.sustain ≤ t → t < e.attack + e.decay + e.sustain + e.release →
            env.sample later t = e.level * (1 - (t - e.attack - e.decay - e.sustain) / e.release)) ∧
          (∀ t, t < 0 ∨ e.attack + e.decay + e.sustain + e.release ≤ t → env.sample later t = 0) ∧
          (0 ≤ e.level → e.level ≤ 1 → ∀ t, 0 ≤ env.sample later t ∧ env.sample later t ≤ 1) ∧
          (0 < e.attack → 0 < e.decay → 0 < e.release → Continuous (env.sample later))) := by
  have hnegative : ∀ {x : Float}, lt x 0.0 = true ↔ x < 0.0 := decide_eq_true_iff
  refine ⟨fun e reels next => ?_, fun e reels next => ?_⟩
  · have hresult := result_toSignal addsUp_double e reels next
    simpa only [hnegative] using hresult
  · have hresult := result_toSignal addsUp_real e reels next
    simp only [lt_iff, zero_lit] at hresult
    refine ⟨hresult.1, fun hstages => ?_⟩
    simp only [not_or, not_lt] at hstages
    have he : e.IsOrdered := ⟨hstages.1, hstages.2.1, hstages.2.2.1, hstages.2.2.2⟩
    obtain ⟨env, next', henv⟩ := succeeds_toSignal he reels next
    have hplays : ∀ later, env.sample later = e.curve := fun later =>
      funext (IsPolygon.plays_curve (ensures_toSignal he next env next' henv) later)
    refine ⟨env, next', henv, fun later => ?_⟩
    rw [hplays]
    exact ⟨fun t => curve_attack, fun t => curve_decay he, fun t => curve_sustain he,
      fun t => curve_release he, fun t => curve_eq_zero he,
      fun h0 h1 t => curve_mem_Icc he ⟨h0, h1⟩ t, continuous_curve he⟩

/-- Stages of a second each on half the height, and a negative stage. -/
theorem refused_or_plays_curve_of_seconds :
    (∃ fault, ((⟨0.5, -1.0, 0.5, 0.5, 1.0⟩ : Envelope Float).toSignal #[] 0).result = .error fault ∧
      fault.kind = .configuration) ∧
    (∃ env next', ((⟨0.5, 0.0, 0.5, 0.5, 1.0⟩ : Envelope Float).toSignal #[] 0).result = .ok (env, next')) ∧
    ∃ env next', (ofSeconds.toSignal (#[] : Reels ℝ) 0).result = .ok (env, next') ∧
      env.sample #[] (1 / 2) = 1 / 2 ∧ env.sample #[] (3 / 2) = 3 / 4 ∧ env.sample #[] (5 / 2) = 1 / 2 ∧
      env.sample #[] (7 / 2) = 1 / 4 ∧ env.sample #[] 4 = 0 ∧
      (0 ≤ env.sample #[] 1 ∧ env.sample #[] 1 ≤ 1) ∧ Continuous (env.sample #[]) := by
  obtain ⟨hdouble, hreal⟩ := refused_or_plays_curve
  obtain ⟨hrefused, -⟩ := hdouble ⟨0.5, -1.0, 0.5, 0.5, 1.0⟩ #[] 0
  obtain ⟨-, hmade⟩ := hdouble ⟨0.5, 0.0, 0.5, 0.5, 1.0⟩ #[] 0
  obtain ⟨env, next', henv, hshape⟩ := (hreal ofSeconds #[] 0).2 (by norm_num [ofSeconds])
  obtain ⟨hattack, hdecay, hsustain, hrelease, hzero, hrange, hcontinuous⟩ := hshape #[]
  refine ⟨hrefused.2 (.inr (.inl (by decide +kernel))), hmade (by decide +kernel), env, next', henv,
    ?_, ?_, ?_, ?_, ?_, ?_, ?_⟩
  · rw [hattack _ (by norm_num) (by norm_num [ofSeconds])]
    norm_num [ofSeconds]
  · rw [hdecay _ (by norm_num [ofSeconds]) (by norm_num [ofSeconds])]
    norm_num [ofSeconds]
  · rw [hsustain _ (by norm_num [ofSeconds]) (by norm_num [ofSeconds])]
    norm_num [ofSeconds]
  · rw [hrelease _ (by norm_num [ofSeconds]) (by norm_num [ofSeconds])]
    norm_num [ofSeconds]
  · exact hzero _ (.inr (by norm_num [ofSeconds]))
  · exact hrange (by norm_num [ofSeconds]) (by norm_num [ofSeconds]) _
  · exact hcontinuous (by norm_num [ofSeconds]) (by norm_num [ofSeconds]) (by norm_num [ofSeconds])

end Envelope

end Polyphony
