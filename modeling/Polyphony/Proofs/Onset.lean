import Polyphony.Proofs.Score.Performance

/-!
# Before the onset

The time zero of a note is its onset, although its envelope may be asked for it at a time that a frequency
modulation has bent.

* `abs_sinePrimitive_le`: the antiderivative of a sine is never farther from zero than the time is.
* `vibratoPhase_neg`: so a vibrato bends no time before the onset into one after it.
* `Preset.sound_before`: a note is silent before its onset, and the drum because its sweep has not begun.
* `Preset.silent_before_onset`: **nothing sounds before its onset**, no note of a preset, no piece, and no
  note within a piece.
-/

namespace Polyphony

open Wiring Piece Envelope

/-- Nothing is heard of a signal before a time. -/
def Signal.SilentBefore (s : Signal ℝ) (start : ℝ) : Prop := ∀ later t, t < start → s.sample later t = 0

/-- **The antiderivative of a sine** is never farther from zero than the time is. -/
theorem abs_sinePrimitive_le (frequency phase t : ℝ) : |sinePrimitive frequency phase t| ≤ |t| := by
  unfold sinePrimitive
  by_cases hf : frequency = 0
  · rw [if_pos hf, abs_mul]
    exact mul_le_of_le_one_left (abs_nonneg t) (Real.abs_sin_le_one phase)
  · have hturn : 0 < |2 * Real.pi * frequency| := by positivity
    have hcos := Real.abs_cos_sub_cos_le phase (2 * Real.pi * frequency * t + phase)
    have hangle : |phase - (2 * Real.pi * frequency * t + phase)| = |2 * Real.pi * frequency| * |t| := by
      rw [← abs_mul, ← abs_neg]
      congr 1
      ring
    rw [if_neg hf, abs_div, div_le_iff₀ hturn, mul_comm |t|, ← hangle]
    exact hcos

/-- **A vibrato leaves the past in the past**: its sine is too weak to turn the time around. -/
theorem vibratoPhase_neg {t : ℝ} (h : t < 0) : vibratoPhase t < 0 := by
  have hsine : sinePrimitive 5 0 t ≤ -t := by
    rw [← abs_of_neg h]
    exact (le_abs_self _).trans (abs_sinePrimitive_le 5 0 t)
  unfold vibratoPhase
  linarith

namespace Preset

variable (p : Preset) (note : ℝ) {length : ℝ} (volume : ℝ) {t : ℝ}

/-- **A note is silent before its onset.** -/
theorem sound_before (hlength : 0 ≤ length) (ht : t < 0) : p.sound note length volume t = 0 := by
  have hheld := isOrdered_ofLength hlength
  cases p with
  | drum =>
    -- no time has passed on the sweep, and at that time the envelope begins to rise
    have hcurve : (ofLength 0.1).curve (sweep.phase t) = 0 := by
      rw [phase_eq_zero isOrdered_sweep (.inl ht), curve_attack le_rfl (by norm_num [ofLength]), zero_div]
    rw [sound, hcurve, mul_zero, zero_mul]
  | dummy => rw [sound, curve_eq_zero hheld (.inl (vibratoPhase_neg ht)), mul_zero, zero_mul]
  | legit => rw [sound, curve_eq_zero hheld (.inl ht), mul_zero, zero_mul]

/-- **Nothing sounds before its onset.** Every preset plays every note, and the note is silent at all times
before zero. Every score that is read is compiled; its piece is the sum of what has been played for the
notes that are wanted, each at the time since its start; each of these is silent before its own start, and
the piece is silent before zero. -/
theorem silent_before_onset (p : Preset) :
    (∀ reels note length volume, 0 ≤ length → Yields reels (p.play note length volume) fun s =>
      s.Plays (p.sound note length volume) ∧ s.SilentBefore 0) ∧
    ∀ policy playRests text tracks,
      (Score.read policy text : Run ℝ (List (Track ℝ))).result = .ok tracks →
      ∀ reels, Yields reels (Score.compile policy (.ofPreset p) playRests text) fun piece =>
        piece.SilentBefore 0 ∧ ∃ played : List (Rendition ℝ),
          Played (fun n => p.sound n.frequency n.duration n.volume) (wanted playRests tracks) played ∧
          (∀ later t, piece.sample later t =
            (played.map fun r => r.signal.sample later (t - r.note.start)).sum) ∧
          ∀ r ∈ played, ∀ later t, t < r.note.start → r.signal.sample later (t - r.note.start) = 0 := by
  constructor
  · intro reels note length volume hlength
    refine (p.yields_play note volume hlength).mono fun s hs => ⟨hs, fun later t ht => ?_⟩
    rw [hs, p.sound_before note volume hlength ht]
  · intro policy playRests text tracks hread reels
    refine (Score.yields_compile_played p playRests hread reels).mono ?_
    rintro piece ⟨played, hpiece, hplayed⟩
    have hsilent : ∀ r ∈ played, ∀ later t, t < r.note.start →
        r.signal.sample later (t - r.note.start) = 0 := by
      intro r hr later t ht
      obtain ⟨hwell, -⟩ := Score.wellFormed_of_played hread hplayed hr
      rw [hplayed.plays r hr]
      exact p.sound_before _ _ hwell.duration_pos.le (sub_neg.2 ht)
    refine ⟨fun later t ht => ?_, played, hplayed, fun later t => hpiece.sample_eq, hsilent⟩
    rw [hpiece.sample_eq]
    refine List.sum_eq_zero fun x hx => ?_
    obtain ⟨r, hr, rfl⟩ := List.mem_map.1 hx
    -- no note starts before the piece does
    obtain ⟨-, hstart⟩ := Score.wellFormed_of_played hread hplayed hr
    exact hsilent r hr later t (ht.trans_le hstart)

/-- A note of the drum, and a piece of two voices for another preset. -/
theorem silent_before_onset_two_voices :
    (Yields #[] (drum.play 440 0.25 0.6) fun s => s.SilentBefore 0) ∧
    ∃ tracks, (Score.read ⟨.strict, none⟩ "t99r8c,c>c#" : Run ℝ (List (Track ℝ))).result = .ok tracks ∧
      Yields #[] (Score.compile ⟨.strict, none⟩ (.ofPreset dummy) true "t99r8c,c>c#") fun piece =>
        piece.SilentBefore 0 := by
  refine ⟨((silent_before_onset drum).1 #[] 440 0.25 0.6 (by norm_num)).mono fun _ h => h.2, ?_⟩
  obtain ⟨tracks, hread⟩ : ∃ tracks,
      (Score.read ⟨.strict, none⟩ "t99r8c,c>c#" : Run ℝ (List (Track ℝ))).result = .ok tracks :=
    Score.exists_read (by decide +kernel) fun _ => List.isEmpty_iff.1 (by decide +kernel)
  exact ⟨tracks, hread, ((silent_before_onset dummy).2 _ true _ tracks hread #[]).mono fun _ h => h.1⟩

end Preset

end Polyphony
