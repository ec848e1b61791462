import Polyphony.Proofs.Instrument

/-!
# How loud a note is

* `abs_sawtoothAt_le`, `abs_sineAt_le`: the oscillators stay between minus one and one, at every frequency.
* `Preset.loudness`: the share of the volume that a preset makes use of.
* `Preset.abs_sound_le`: a sound never leaves that share, at no time, pitch or length.
* `Preset.bounded_by_volume`: **a note of a preset is bounded by its volume.**
-/

namespace Polyphony

open Wiring Envelope

/-! ### Oscillators -/

theorem abs_sawtoothAt_le (frequency t : ℝ) : |sawtoothAt frequency t| ≤ 1 := by
  have h0 := Int.fract_nonneg (t * frequency)
  have h1 := Int.fract_lt_one (t * frequency)
  rw [sawtoothAt, abs_le]
  constructor <;> linarith

theorem abs_sineAt_le (frequency t : ℝ) : |sineAt frequency t| ≤ 1 := Real.abs_sin_le_one _

/-- Voices that play sines add up to at most their number. -/
theorem abs_sum_sineAt_le (count : ℕ) (frequency : ℕ → ℝ) (t : ℝ) :
    |∑ k ∈ Finset.range count, sineAt (frequency k) t| ≤ count :=
  calc |∑ k ∈ Finset.range count, sineAt (frequency k) t|
      ≤ ∑ k ∈ Finset.range count, |sineAt (frequency k) t| := Finset.abs_sum_le_sum_abs _ _
    _ ≤ ∑ _k ∈ Finset.range count, 1 := Finset.sum_le_sum fun k _ => abs_sineAt_le _ _
    _ = count := by rw [Finset.sum_const, Finset.card_range, nsmul_one]

/-- The envelope of a note is never above one. -/
theorem Envelope.abs_curve_ofLength_le {length : ℝ} (h : 0 ≤ length) (t : ℝ) :
    |(ofLength length).curve t| ≤ 1 := by
  have hlevel : (ofLength length).level ∈ Set.Icc (0 : ℝ) 1 := by norm_num [ofLength]
  obtain ⟨h0, h1⟩ := curve_mem_Icc (isOrdered_ofLength h) hlevel t
  rwa [abs_of_nonneg h0]

/-- A product of two bounded factors. -/
theorem abs_mul_le_mul_one {a b bound : ℝ} (ha : |a| ≤ bound) (hb : |b| ≤ 1) : |a * b| ≤ bound := by
  rw [abs_mul]
  exact (mul_le_of_le_one_right (abs_nonneg a) hb).trans ha

/-! ### Presets -/

namespace Preset

/-- The share of the volume that a preset makes use of. -/
noncomputable def loudness : Preset → ℝ
  | drum => 0.2
  | dummy => 0.1
  | legit => 0.7

variable (p : Preset) (note : ℝ) {length volume : ℝ}

/-- **A sound is bounded by its volume**, at every time. -/
theorem abs_sound_le (hlength : 0 ≤ length) (hvolume : 0 ≤ volume) (t : ℝ) :
    |p.sound note length volume t| ≤ p.loudness * volume := by
  -- the volume scales a wave that is never above one, or never above the number of its voices
  have hscale : ∀ {wave bound factor : ℝ}, |wave| ≤ bound → 0 ≤ factor →
      |wave * factor| ≤ bound * factor := fun hwave hfactor => by
    rw [abs_mul, abs_of_nonneg hfactor]
    exact mul_le_mul_of_nonneg_right hwave hfactor
  cases p with
  | drum =>
    have hwave := abs_mul_le_mul_one (abs_sawtoothAt_le (note / 32) (sweep.phase t))
      (abs_curve_ofLength_le (by norm_num : (0 : ℝ) ≤ 0.1) (sweep.phase t))
    refine (hscale hwave (by positivity)).trans_eq ?_
    rw [one_mul, loudness]
  | dummy =>
    have hwave := abs_mul_le_mul_one (abs_sawtoothAt_le note (vibratoPhase t))
      (abs_curve_ofLength_le hlength (vibratoPhase t))
    refine (hscale hwave (by positivity)).trans_eq ?_
    rw [one_mul, loudness]
  | legit =>
    have hvoices : |0.1 * ∑ k ∈ Finset.range 7, sineAt (note * 2 ^ (-3 + k : ℤ)) t| ≤ 0.7 := by
      have hsum := abs_sum_sineAt_le 7 (fun k => note * 2 ^ (-3 + k : ℤ)) t
      rw [abs_mul, abs_of_pos (by norm_num : (0 : ℝ) < 0.1)]
      norm_num at hsum ⊢
      linarith
    have htremolo : |0.35 * sineAt 4 t + 0.65| ≤ 1 := by
      obtain ⟨hlow, hhigh⟩ := abs_le.1 (abs_sineAt_le 4 t)
      rw [abs_le]
      constructor <;> linarith
    exact hscale (abs_mul_le_mul_one (abs_mul_le_mul_one hvoices htremolo)
      (abs_curve_ofLength_le hlength t)) hvolume

/-- **A note of a preset is bounded by its volume.** Every preset plays every note, and no sample of it is
farther from zero than the preset's share of the volume, at every frequency and at every time. -/
theorem bounded_by_volume (p : Preset) (reels : Reels ℝ) (note : ℝ) {length volume : ℝ}
    (hlength : 0 ≤ length) (hvolume : 0 ≤ volume) :
    Yields reels (p.play note length volume) fun s =>
      ∀ later t, |s.sample later t| ≤ p.loudness * volume := by
  refine (p.yields_play note volume hlength).mono fun s hs later t => ?_
  rw [hs]
  exact p.abs_sound_le note hlength hvolume t

/-- A low note of negative frequency, and one without length. -/
theorem bounded_by_volume_legit :
    (Yields (#[] : Reels ℝ) (legit.play (-55) 0 0.6) fun s => ∀ later t, |s.sample later t| ≤ 0.42) ∧
    Yields (#[] : Reels ℝ) (drum.play 440 0 1) fun s => ∀ later t, |s.sample later t| ≤ 0.2 := by
  refine ⟨(bounded_by_volume legit #[] (-55) le_rfl (by norm_num)).mono fun s hs later t => ?_,
    (bounded_by_volume drum #[] 440 le_rfl zero_le_one).mono fun s hs later t => ?_⟩
  · exact (hs later t).trans_eq (by norm_num [loudness])
  · exact (hs later t).trans_eq (by norm_num [loudness])

end Preset

end Polyphony
