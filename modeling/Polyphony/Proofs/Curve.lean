import Polyphony.Proofs.Envelope

/-!
# The curve of an envelope

What an envelope plays, and what its antiderivative plays, as functions of time.

* `Envelope.stageAt`: the stage that a time lies in.
* `Envelope.curve`: rise, fall, level and fall to zero. **An envelope plays its curve**
  (`IsPolygon.plays_curve`).
* `Envelope.phase`: the area under the curve since the stage began. **The antiderivative of an envelope
  plays its phase** (`IsPolygon.primitive_eq_phase`).
* `Envelope.curve_eq_zero`, `Envelope.phase_eq_zero`: both are zero before the attack and from the end
  of the release on.
* `Envelope.curve_mem_Icc`: the curve stays between zero and one.
-/

namespace Polyphony.Envelope

open Exact

variable {e : Envelope ℝ} {t : ℝ} {i : Fin 4}

/-! ### Stages by time -/

/-- The time at which the release is over. -/
def finish (e : Envelope ℝ) : ℝ := e.attack + e.decay + e.sustain + e.release

/-- **The stage that a time lies in**: attack, decay, sustain, release. -/
noncomputable def stageAt (e : Envelope ℝ) (t : ℝ) : Option (Fin 4) :=
  if t < 0 then none
  else if t < e.attack then some 0
  else if t < e.attack + e.decay then some 1
  else if t < e.attack + e.decay + e.sustain then some 2
  else if t < e.finish then some 3
  else none

theorem mem_stage (he : e.IsOrdered) (h : e.stageAt t = some i) : t ∈ (e.schedule he).stage i := by
  unfold stageAt at h
  split_ifs at h with h0 h1 h2 h3 h4 <;> cases h
  · exact ⟨not_lt.1 h0, h1⟩
  · exact ⟨not_lt.1 h1, h2⟩
  · exact ⟨not_lt.1 h2, h3⟩
  · exact ⟨not_lt.1 h3, h4⟩

theorem notMem_stage (he : e.IsOrdered) (h : e.stageAt t = none) (i : Fin 4) :
    t ∉ (e.schedule he).stage i := by
  have hfirst : (0 : ℝ) ≤ (e.schedule he).time i.castSucc := (e.schedule he).ordered (Fin.zero_le _)
  have hlast : (e.schedule he).time i.succ ≤ e.finish := (e.schedule he).ordered (Fin.le_last _)
  intro hi
  have h0 : ¬ t < 0 := not_lt.2 (hfirst.trans hi.1)
  have h4 : t < e.finish := hi.2.trans_le hlast
  unfold stageAt at h
  split_ifs at h

theorem stageAt_of_mem (he : e.IsOrdered) (h : t ∈ (e.schedule he).stage i) : e.stageAt t = some i := by
  cases hstage : e.stageAt t with
  | none => exact absurd h (notMem_stage he hstage i)
  | some j => rw [Schedule.stage_unique (mem_stage he hstage) h]

theorem stageAt_eq_none (he : e.IsOrdered) (ht : t < 0 ∨ e.finish ≤ t) : e.stageAt t = none := by
  have h1 := he.decay_nonneg
  have h2 := he.sustain_nonneg
  have h3 := he.release_nonneg
  unfold finish at ht
  unfold stageAt finish
  rcases ht with ht | ht
  · exact if_pos ht
  · split_ifs <;> first | rfl | linarith

/-! ### Curve and phase -/

/-- **The curve of an envelope.** -/
noncomputable def curve (e : Envelope ℝ) (t : ℝ) : ℝ :=
  match e.stageAt t with
  | none => 0
  | some 0 => t / e.attack
  | some 1 => 1 + (e.level - 1) * ((t - e.attack) / e.decay)
  | some 2 => e.level
  | some 3 => e.level * (1 - (t - (e.attack + e.decay + e.sustain)) / e.release)

/-- The times of the corners. -/
noncomputable def corner (e : Envelope ℝ) : Fin 5 → ℝ :=
  ![0, e.attack, e.attack + e.decay, e.attack + e.decay + e.sustain, e.finish]

/-- **The phase of an envelope**: the area under the curve since the stage began. -/
noncomputable def phase (e : Envelope ℝ) (t : ℝ) : ℝ :=
  match e.stageAt t with
  | none => 0
  | some i => (t - e.corner i.castSucc) * (e.height i.castSucc + e.curve t) / 2

theorem curve_of_stageAt_none (h : e.stageAt t = none) : e.curve t = 0 := by
  rw [curve, h]

theorem phase_of_stageAt_none (h : e.stageAt t = none) : e.phase t = 0 := by
  rw [phase, h]

theorem curve_eq_zero (he : e.IsOrdered) (ht : t < 0 ∨ e.finish ≤ t) : e.curve t = 0 :=
  curve_of_stageAt_none (stageAt_eq_none he ht)

theorem phase_eq_zero (he : e.IsOrdered) (ht : t < 0 ∨ e.finish ≤ t) : e.phase t = 0 :=
  phase_of_stageAt_none (stageAt_eq_none he ht)

/-- The curve rises from zero. -/
theorem curve_attack (h0 : 0 ≤ t) (h : t < e.attack) : e.curve t = t / e.attack := by
  have hstage : e.stageAt t = some 0 := by rw [stageAt, if_neg (not_lt.2 h0), if_pos h]
  rw [curve, hstage]

/-- **The curve stays between zero and one** if the level does. -/
theorem curve_mem_Icc (he : e.IsOrdered) (hlevel : e.level ∈ Set.Icc 0 1) (t : ℝ) :
    e.curve t ∈ Set.Icc 0 1 := by
  rw [curve]
  cases hstage : e.stageAt t with
  | none => exact ⟨le_rfl, zero_le_one⟩
  | some i =>
    obtain ⟨hbegin, hend⟩ := mem_stage he hstage
    -- the part of a stage that is over
    have hpart : ∀ {begin span : ℝ}, begin ≤ t → t < begin + span → (t - begin) / span ∈ Set.Icc 0 1 :=
      fun h0 h1 =>
        have hle := (sub_lt_iff_lt_add'.2 h1).le
        unitInterval.div_mem (sub_nonneg.2 h0) ((sub_nonneg.2 h0).trans hle) hle
    fin_cases i
    · exact unitInterval.div_mem hbegin he.attack_nonneg hend.le
    · have hfall : 1 - (1 - e.level) * ((t - e.attack) / e.decay) ∈ Set.Icc 0 1 :=
        Set.Icc.one_sub_mem (unitInterval.mul_mem (Set.Icc.one_sub_mem hlevel) (hpart hbegin hend))
      show 1 + (e.level - 1) * ((t - e.attack) / e.decay) ∈ Set.Icc 0 1
      convert hfall using 1
      ring
    · exact hlevel
    · exact unitInterval.mul_mem hlevel (Set.Icc.one_sub_mem (hpart hbegin hend))

/-- The phase in the release, by the time that is left of it. -/
theorem phase_release (he : e.IsOrdered) {left : ℝ} (h0 : 0 < left) (h : left ≤ e.release) :
    e.phase (e.finish - left) = e.level * (e.release ^ 2 - left ^ 2) / (2 * e.release) := by
  have hpos : 0 < e.release := h0.trans_le h
  have hsince : e.finish - left - (e.attack + e.decay + e.sustain) = e.release - left := by
    unfold finish
    ring
  have hmem : e.finish - left ∈ (e.schedule he).stage 3 :=
    ⟨show e.attack + e.decay + e.sustain ≤ _ by linarith, sub_lt_self _ h0⟩
  rw [phase, curve, stageAt_of_mem he hmem]
  show (e.finish - left - (e.attack + e.decay + e.sustain)) * (e.level + e.level *
    (1 - (e.finish - left - (e.attack + e.decay + e.sustain)) / e.release)) / 2 = _
  rw [hsince]
  field_simp
  ring

theorem curve_of_mem (he : e.IsOrdered) (h : e.stageAt t = some i) : e.side he i t = e.curve t := by
  rw [curve, h]
  unfold side lineBetween
  fin_cases i
  · simp [schedule, height]
  · simp [schedule, height]
  · simp [schedule, height]
  · simp [schedule, height]
    ring

namespace IsPolygon

variable {he : e.IsOrdered} {s : Signal ℝ}

/-- **An envelope plays its curve.** -/
theorem plays_curve (h : e.IsPolygon he s) : s.Plays e.curve := by
  intro later t
  cases hstage : e.stageAt t with
  | none =>
    obtain ⟨sources, hstages, -⟩ := h
    rw [curve_of_stageAt_none hstage, hstages.sample_of_forall_notMem (notMem_stage he hstage)]
  | some i => rw [h.sample_of_mem (mem_stage he hstage), curve_of_mem he hstage]

/-- **The antiderivative of an envelope plays its phase.** -/
theorem primitive_eq_phase (h : e.IsPolygon he s) : s.primitive = e.phase := by
  funext t
  cases hstage : e.stageAt t with
  | none =>
    obtain ⟨sources, hstages, -⟩ := h
    rw [phase_of_stageAt_none hstage, hstages.primitive_of_forall_notMem (notMem_stage he hstage)]
  | some i =>
    rw [h.primitive_of_mem (mem_stage he hstage), curve_of_mem he hstage, phase, hstage]
    rfl

end IsPolygon

end Polyphony.Envelope
