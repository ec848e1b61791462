import Polyphony.Proofs.Score.Grammar
import Polyphony.Proofs.Score.Performance
import Polyphony.Program

/-!
# The tail of a recording

A recording goes on for half a second after the last note, for what is still to be heard of it.

* `Preset.ring`: the time for which a note is heard. From then on it is silent (`Preset.sound_eq_zero`).
* `Preset.exists_sound_ne_zero`: a note of the drum is heard to the end of that time.
* `Preset.silent_from_tail`: **the tail suffices for all notes but short ones of the drum**, whose
  notes take their own time, whatever their length; and for all pieces without such notes.
* `Preset.drum_outlasts_tail`: so it does not suffice for every note.
-/

namespace Polyphony

open Wiring Piece Envelope

/-- Nothing is heard of a signal from a time on. -/
def Signal.SilentFrom (s : Signal ℝ) (start : ℝ) : Prop := ∀ later t, start ≤ t → s.sample later t = 0

theorem Signal.Plays.silentFrom_iff {s : Signal ℝ} {f : ℝ → ℝ} (h : s.Plays f) {start : ℝ} :
    s.SilentFrom start ↔ ∀ t, start ≤ t → f t = 0 := by
  constructor
  · intro hs t ht
    rw [← h #[], hs _ _ ht]
  · intro hf later t ht
    rw [h, hf t ht]

/-! ### Sawtooth waves -/

/-- **A sawtooth wave is not silent for any time.** -/
theorem exists_sawtoothAt_ne_zero (frequency : ℝ) {a b : ℝ} (h : a < b) :
    ∃ t ∈ Set.Ioo a b, sawtoothAt frequency t ≠ 0 := by
  by_contra! hzero
  have hhalf : ∀ t ∈ Set.Ioo a b, Int.fract (t * frequency) = 1 / 2 := by
    intro t ht
    have := hzero t ht
    unfold sawtoothAt at this
    linarith
  obtain ⟨t, hat, htb⟩ := exists_between h
  -- a second time, less than a period later
  obtain ⟨d, hd, hdlt⟩ : ∃ d, 0 < d ∧ d < min (b - t) (1 / (|frequency| + 1)) :=
    exists_between (lt_min (sub_pos.2 htb) (by positivity))
  obtain ⟨hdb, hperiod⟩ := lt_min_iff.1 hdlt
  have hsecond : t + d ∈ Set.Ioo a b := ⟨by linarith, by linarith⟩
  obtain ⟨z, hz⟩ := Int.fract_eq_fract.1 ((hhalf _ hsecond).trans (hhalf t ⟨hat, htb⟩).symm)
  have hdz : d * frequency = z := by
    rw [← hz]
    ring
  have hsmall : |(z : ℝ)| < 1 := by
    rw [← hdz, abs_mul, abs_of_pos hd]
    rw [lt_div_iff₀ (by positivity)] at hperiod
    linarith
  have hz0 : z = 0 := Int.abs_lt_one_iff.1 (by exact_mod_cast hsmall)
  have hfrequency : frequency = 0 := by
    rw [hz0, Int.cast_zero] at hdz
    exact (mul_eq_zero.1 hdz).resolve_left hd.ne'
  have := hhalf t ⟨hat, htb⟩
  rw [hfrequency, mul_zero, Int.fract_zero] at this
  norm_num at this

/-! ### Envelopes of notes -/

namespace Envelope

theorem finish_ofLength (length : ℝ) : (ofLength length).finish = length + 0.2 := by
  norm_num [ofLength, finish]
  ring

theorem finish_sweep : sweep.finish = 1.15 := by
  norm_num [sweep, finish]

/-- The release of the sweep, by the time that is left of it. -/
theorem phase_sweep {left : ℝ} (h0 : 0 < left) (h : left ≤ 0.05) :
    sweep.phase (sweep.finish - left) = 0.0025 - left ^ 2 := by
  rw [phase_release isOrdered_sweep h0 h]
  norm_num [sweep]

/-- The release runs backwards through the first phases of a note. -/
theorem exists_phase_sweep {w x : ℝ} (hw0 : 0 < w) (hw : w ≤ 0.05) (hx : 0.0025 - w ^ 2 < x)
    (hx' : x < 0.0025) : ∃ t, sweep.finish - w ≤ t ∧ sweep.phase t = x := by
  have hleft0 : 0 < √(0.0025 - x) := Real.sqrt_pos.2 (by linarith)
  have hleftw : √(0.0025 - x) ≤ w := by
    rw [Real.sqrt_le_left hw0.le]
    linarith
  refine ⟨sweep.finish - √(0.0025 - x), by linarith, ?_⟩
  rw [phase_sweep hleft0 (hleftw.trans hw), Real.sq_sqrt (by linarith)]
  ring

end Envelope

/-- A vibrato only ever lets more time pass. -/
theorem le_vibratoPhase {t : ℝ} (h : 0 ≤ t) : t ≤ vibratoPhase t := by
  have hsine : 0 ≤ sinePrimitive 5 0 t := by
    have hcos := Real.cos_le_one (2 * Real.pi * 5 * t + 0)
    rw [sinePrimitive, if_neg (by norm_num), Real.cos_zero]
    have := Real.pi_pos
    exact div_nonneg (by linarith) (by positivity)
  unfold vibratoPhase
  linarith

namespace Preset

/-! ### How long a note rings -/

/-- **The time for which a note is heard**: its length and a release, but for the drum the time of its
sweep. -/
noncomputable def ring : Preset → ℝ → ℝ
  | drum, _ => sweep.finish
  | dummy, length => (ofLength length).finish
  | legit, length => (ofLength length).finish

/-- The tail suffices for a note: for each but a short one of the drum. -/
def EndsInTail (p : Preset) (length volume : ℝ) : Prop := p = drum → volume = 0 ∨ 0.65 ≤ length

variable {p : Preset} (note : ℝ) {length volume t : ℝ}

theorem ring_le_of_ne_drum (h : p ≠ drum) (length : ℝ) : p.ring length ≤ length + Program.tail := by
  have htail : (Program.tail : ℝ) = 0.5 := rfl
  cases p with
  | drum => exact absurd rfl h
  | dummy | legit =>
    rw [ring, finish_ofLength, htail]
    norm_num

theorem ring_drum_le_iff : drum.ring length ≤ length + Program.tail ↔ 0.65 ≤ length := by
  have htail : (Program.tail : ℝ) = 0.5 := rfl
  rw [ring, finish_sweep, htail]
  constructor <;> intro h <;> norm_num at h ⊢ <;> linarith

theorem sound_of_volume_zero (p : Preset) (note length t : ℝ) : p.sound note length 0 t = 0 := by
  cases p <;> rw [sound] <;> simp only [mul_zero]

/-- **A note is silent once it has rung.** -/
theorem sound_eq_zero (volume : ℝ) (hlength : 0 ≤ length) (ht : p.ring length ≤ t) :
    p.sound note length volume t = 0 := by
  have hheld := isOrdered_ofLength hlength
  cases p with
  | drum =>
    have hcurve : (ofLength 0.1).curve (sweep.phase t) = 0 := by
      rw [phase_eq_zero isOrdered_sweep (.inr ht), curve_attack le_rfl (by norm_num [ofLength]), zero_div]
    rw [sound, hcurve, mul_zero, zero_mul]
  | dummy =>
    have hpast : (ofLength length).finish ≤ vibratoPhase t := by
      have hfinish := finish_ofLength length
      exact le_trans ht (le_vibratoPhase (by rw [ring] at ht; linarith))
    rw [sound, curve_eq_zero hheld (.inr hpast), mul_zero, zero_mul]
  | legit => rw [sound, curve_eq_zero hheld (.inr ht), mul_zero, zero_mul]

/-- **A note of the drum is heard to the end of its time.** -/
theorem exists_sound_ne_zero (length : ℝ) (hvolume : volume ≠ 0) (ht : t < drum.ring length) :
    ∃ u, t ≤ u ∧ drum.sound note length volume u ≠ 0 := by
  obtain ⟨w, hw0, hwmin⟩ : ∃ w, 0 < w ∧ w < min 0.05 (sweep.finish - t) :=
    exists_between (lt_min (by norm_num) (sub_pos.2 ht))
  obtain ⟨hw, hwt⟩ := lt_min_iff.1 hwmin
  have hsquare : w ^ 2 ≤ 0.0025 := by
    have hsquare := pow_le_pow_left₀ hw0.le hw.le 2
    norm_num at hsquare ⊢
    exact hsquare
  -- of the phases that are left one is heard
  obtain ⟨x, ⟨hx, hx'⟩, hsaw⟩ :=
    exists_sawtoothAt_ne_zero (note / 32) (sub_lt_self (0.0025 : ℝ) (pow_pos hw0 2))
  obtain ⟨u, hu, hphase⟩ := exists_phase_sweep hw0 hw.le hx hx'
  have hx0 : 0 < x := by linarith
  have hcurve : (ofLength 0.1).curve x = x / 0.1 :=
    curve_attack hx0.le (by norm_num [ofLength] at hx' ⊢; linarith)
  have hten : x / 0.1 ≠ 0 := by positivity
  have hgain : 0.2 * volume ≠ 0 := mul_ne_zero (by norm_num) hvolume
  refine ⟨u, by linarith, ?_⟩
  rw [sound, hphase, hcurve]
  exact mul_ne_zero (mul_ne_zero hsaw hten) hgain

/-- **When a note is silent from the tail on.** -/
theorem sound_silent_iff (hlength : 0 ≤ length) :
    (∀ t, length + Program.tail ≤ t → p.sound note length volume t = 0) ↔
      p.EndsInTail length volume := by
  constructor
  · rintro hsilent rfl
    by_contra! h
    obtain ⟨hvolume, hshort⟩ := h
    have hrings : length + Program.tail < drum.ring length :=
      not_le.1 fun hle => hshort.not_ge (ring_drum_le_iff.1 hle)
    obtain ⟨t, ht, hsound⟩ := exists_sound_ne_zero note length hvolume hrings
    exact hsound (hsilent t ht)
  · intro h t ht
    by_cases hp : p = drum
    · subst hp
      rcases h rfl with rfl | hlong
      · exact sound_of_volume_zero drum note length t
      · exact sound_eq_zero note volume hlength ((ring_drum_le_iff.2 hlong).trans ht)
    · exact sound_eq_zero note volume hlength ((ring_le_of_ne_drum hp length).trans ht)

/-! ### The tail of a piece -/

variable {policy : ErrorPolicy} {text : String} {tracks : List (Track ℝ)}

/-- A piece of a preset is silent once all its notes are. -/
theorem yields_compile_silentFrom (playRests : Bool)
    (hread : (Score.read policy text : Run ℝ (List (Track ℝ))).result = .ok tracks) (reels : Reels ℝ) :
    Yields reels (Score.compile policy (.ofPreset p) playRests text) fun piece =>
      ∀ start, (∀ notes ∈ tracks, ∀ n ∈ notes, ∀ t, start ≤ t →
        p.sound n.frequency n.duration n.volume (t - n.start) = 0) → piece.SilentFrom start := by
  refine (Score.yields_compile p playRests hread reels).mono fun piece hpiece start hsilent => ?_
  refine hpiece.silentFrom_iff.2 fun t ht => List.sum_eq_zero fun x hx => ?_
  obtain ⟨w, hw, rfl⟩ := List.mem_map.1 hx
  obtain ⟨notes, hnotes, hn⟩ := exists_of_mem_wanted hw
  exact hsilent notes (List.mem_of_getElem? hnotes) w.2 hn t ht

/-- **The tail suffices** for all notes of all presets but for short notes of the drum: every note is
played, is silent once it has rung, and is silent from the tail on just if it is none of those. Every
score that is read is compiled; its piece is silent once all notes have rung that have a volume, and from
the tail on if there are none of those in it. -/
theorem silent_from_tail (p : Preset) :
    (∀ reels note length volume, 0 ≤ length → Yields reels (p.play note length volume) fun s =>
      s.SilentFrom (p.ring length) ∧
      (s.SilentFrom (length + Program.tail) ↔ p.EndsInTail length volume)) ∧
    ∀ policy playRests text tracks,
      (Score.read policy text : Run ℝ (List (Track ℝ))).result = .ok tracks →
      ∀ reels, Yields reels (Score.compile policy (.ofPreset p) playRests text) fun piece =>
        (∀ start, (∀ notes ∈ tracks, ∀ n ∈ notes, n.volume = 0 ∨ n.start + p.ring n.duration ≤ start) →
          piece.SilentFrom start) ∧
        ((∀ notes ∈ tracks, ∀ n ∈ notes, p.EndsInTail n.duration n.volume) →
          piece.SilentFrom (Score.duration tracks + Program.tail)) := by
  constructor
  · intro reels note length volume hlength
    refine (p.yields_play note volume hlength).mono fun s hs => ⟨?_, ?_⟩
    · exact hs.silentFrom_iff.2 fun t ht => sound_eq_zero note volume hlength ht
    · rw [hs.silentFrom_iff, sound_silent_iff note hlength]
  · intro policy playRests text tracks hread reels
    have hlength : ∀ notes ∈ tracks, ∀ n ∈ notes, 0 ≤ n.duration := fun notes hnotes n hn =>
      (Score.wellFormed_of_read hread hnotes hn).duration_pos.le
    refine (yields_compile_silentFrom playRests hread reels).mono fun piece hpiece => ⟨?_, ?_⟩
    · intro start hstart
      refine hpiece start fun notes hnotes n hn t ht => ?_
      rcases hstart notes hnotes n hn with hvolume | hover
      · rw [hvolume, sound_of_volume_zero]
      · exact sound_eq_zero _ _ (hlength notes hnotes n hn) (by linarith)
    · intro hends
      refine hpiece _ fun notes hnotes n hn t ht => ?_
      have hfinish : n.start + n.duration ≤ Score.duration tracks :=
        Score.finish_le_duration hnotes hn
      exact (sound_silent_iff _ (hlength notes hnotes n hn)).2 (hends notes hnotes n hn) _ (by linarith)

/-- A note of the drum for a quarter of a second, and a piece of one note for another preset. -/
theorem silent_from_tail_drum :
    (Yields #[] (drum.play 440 0.25 0.6) fun s =>
      s.SilentFrom sweep.finish ∧ ¬ s.SilentFrom (0.25 + Program.tail)) ∧
    ∃ tracks, (Score.read ⟨.lenient, none⟩ "c" : Run ℝ (List (Track ℝ))).result = .ok tracks ∧
      Yields #[] (Score.compile ⟨.lenient, none⟩ (.ofPreset legit) true "c") fun piece =>
        piece.SilentFrom (Score.duration tracks + Program.tail) := by
  constructor
  · refine ((silent_from_tail drum).1 #[] 440 0.25 0.6 (by norm_num)).mono fun s hs => ⟨hs.1, ?_⟩
    rw [hs.2]
    intro hends
    rcases hends rfl with h | h <;> norm_num at h
  · let policy : ErrorPolicy := ⟨.lenient, none⟩
    obtain ⟨last, notes, hcourse⟩ : ∃ last notes, Sequencer.Course policy.mode
        (Sequencer.start : Sequencer ℝ) (Token.scan ['c']) last notes :=
      (Sequencer.exists_course_iff Sequencer.ready_start).2 fun h => by cases h
    have hnotes : (Track.read policy (some (0 : ℕ)) ['c'] : Run ℝ (Track ℝ)).result = .ok notes := by
      rw [Track.result_read (by decide +kernel), Track.result_play_of_course hcourse]
    have hread : (Score.read policy "c" : Run ℝ (List (Track ℝ))).result = .ok [notes] := by
      have hvoices : Score.voices "c" = [['c']] := by decide
      rw [Score.read, hvoices, Score.readVoices, if_neg (by decide), Run.result_bind, hnotes]
      rfl
    refine ⟨[notes], hread, ?_⟩
    refine ((silent_from_tail legit).2 policy true "c" [notes] hread #[]).mono
      fun piece hpiece => hpiece.2 fun _ _ _ _ h => ?_
    cases h

/-- **The tail does not suffice for every note**: one of the drum is heard after it. -/
theorem drum_outlasts_tail :
    (0.25 + Program.tail : ℝ) ≤ 1.125 ∧ Yields #[] (drum.play 440 0.25 0.6) fun s =>
      s.sample #[] 1.125 ≠ 0 ∧ ¬ s.SilentFrom (0.25 + Program.tail) := by
  have htail : (0.25 + Program.tail : ℝ) ≤ 1.125 := by norm_num [Program.tail]
  refine ⟨htail, (drum.yields_play 440 0.6 (by norm_num)).mono fun s hs => ?_⟩
  have hphase : sweep.phase 1.125 = 0.001875 := by
    have hphase : sweep.phase (sweep.finish - 0.025) = 0.0025 - 0.025 ^ 2 :=
      phase_sweep (by norm_num) (by norm_num)
    norm_num [finish_sweep] at hphase ⊢
    exact hphase
  have hsound : s.sample #[] 1.125 ≠ 0 := by
    have hfract : Int.fract (0.001875 * (440 / 32) : ℝ) = 0.001875 * (440 / 32) :=
      Int.fract_eq_self.2 (by norm_num)
    rw [hs, sound, hphase, curve_attack (by norm_num) (by norm_num [ofLength]), sawtoothAt, hfract]
    norm_num [ofLength]
  exact ⟨hsound, fun hsilent => hsound (hsilent _ _ htail)⟩

end Preset

end Polyphony
