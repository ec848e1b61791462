import Polyphony.Proofs.Curve
import Polyphony.Instrument

/-!
# What the presets play

In exact arithmetic every preset plays every note, and what it plays is a formula.

* `yields_sawtooth`, `yields_sine`, `yields_product`, `yields_unison`, …: what the generators play that
  instruments are made of.
* `Preset.sound`: **the note of a preset** as a function of time.
* `Preset.yields_play`: no note is refused, and what is wired for it plays the formula.
-/

namespace Polyphony

open Wiring Exact

variable {reels : Reels ℝ} {F G : Signal ℝ} {f g : ℝ → ℝ}

/-! ### Oscillators and modulations -/

/-- A sawtooth wave. -/
noncomputable def sawtoothAt (frequency t : ℝ) : ℝ := Int.fract (t * frequency) * 2 - 1

/-- A sine wave. -/
noncomputable def sineAt (frequency t : ℝ) : ℝ := Real.sin (2 * Real.pi * frequency * t)

theorem yields_sawtooth (frequency : ℝ) :
    Yields reels (Signal.sawtooth frequency) fun S => S.Plays (sawtoothAt frequency) := by
  refine yields_place fun id later t => ?_
  show Int.fract (t * frequency) * 2.0 - 1.0 = _
  rw [two_lit, one_lit, sawtoothAt]

theorem yields_sine (frequency : ℝ) :
    Yields reels (Signal.sine frequency) fun S => S.Plays (sineAt frequency) := by
  refine yields_place fun id later t => ?_
  rw [Signal.sample_node, Ugen.sample_sine, zero_lit, add_zero, sineAt]

theorem yields_range (hF : F.Plays f) (low high : ℝ) :
    Yields reels (F.range low high) fun S =>
      S.Plays fun t => (high - low) / 2 * f t + (high + low) / 2 := by
  refine yields_place fun id later t => ?_
  rw [Signal.sample_node, Ugen.sample_range, hF]

theorem yields_gain (hF : F.Plays f) (factor : ℝ) :
    Yields reels (F.gain factor) fun S => S.Plays fun t => f t * factor :=
  (succeeds_place _ _).yields (ensures_gain hF factor)

theorem yields_product (hF : F.Plays f) (hG : G.Plays g) :
    Yields reels (Signal.between .amplitudeModulation F G) fun S => S.Plays fun t => f t * g t := by
  refine yields_place fun id later t => ?_
  show F.sample later t * G.sample later t = _
  rw [hF, hG]

/-- A mix plays the weighted sum of its parts. -/
theorem yields_mix (parts : Array (ℝ × Signal ℝ)) : Yields reels (Signal.mix parts) fun S =>
    ∀ later t, S.sample later t = (parts.toList.map fun p => p.1 * p.2.sample later t).sum := by
  refine yields_place fun id later t => ?_
  rw [Signal.sample_node, Ugen.sample_mix]
  exact Fin.sum_univ_fun_getElem parts.toList fun p => p.1 * p.2.sample later t

/-- **A frequency modulation** plays the carrier at the antiderivative of the frequency. -/
theorem yields_frequencyModulated (hF : F.Plays f) (hG : Succeeds reels G.integral)
    (hg : G.primitive = g) :
    Yields reels (F.frequencyModulated G) fun S => S.Plays fun t => f (g t) := by
  refine (hG.yields G.ensures_integral).bind fun I hI => yields_place fun id later t => ?_
  show F.sample later (I.sample later t) = _
  rw [hF, hI, hg]

/-! ### Voices in octaves -/

section Unison

variable {voice : ℝ → Wiring ℝ (Signal ℝ)} {wave : ℝ → ℝ → ℝ}
  (hvoice : ∀ frequency, Yields reels (voice frequency) fun S => S.Plays (wave frequency)) (pitch : ℝ)

/-- In exact arithmetic every octave has its factor. -/
theorem yields_octaveFactor (octaves : ℤ) :
    Yields reels (Signal.octaveFactor octaves : Wiring ℝ ℝ) (· = 2 ^ octaves) := yields_pure rfl

theorem yields_discard {β : Type} {w : Wiring ℝ β} {P : β → Prop} (hw : Yields reels w P) :
    Yields reels (discard w) fun _ => True := by
  rw [Functor.discard, map_const, Function.comp_apply, map_eq_pure_bind]
  exact hw.bind fun _ _ => yields_pure trivial

include hvoice in
theorem yields_stack (count : ℕ) (octaves : ℤ) :
    Yields reels (Signal.stack pitch voice count octaves) fun parts => ∀ later t,
      (parts.map fun p => p.1 * p.2.sample later t).sum =
        ∑ k ∈ Finset.range count, wave (pitch * 2 ^ (octaves + k)) t := by
  induction count generalizing octaves with
  | zero => exact yields_pure fun later t => rfl
  | succ count ih =>
    refine (yields_octaveFactor octaves).bind fun factor hfactor =>
      (hvoice _).bind fun first hfirst => (ih (octaves + 1)).bind fun others hothers => ?_
    refine yields_pure fun later t => ?_
    rw [List.map_cons, List.sum_cons, hothers, hfirst, hfactor, one_lit, one_mul,
      Finset.sum_range_succ', add_comm]
    simp only [Nat.cast_add, Nat.cast_one, Nat.cast_zero, add_zero, add_assoc, add_comm (1 : ℤ)]

include hvoice in
/-- **Voices in octaves** around a pitch, as many above it as below. -/
theorem yields_unison (half : ℕ) :
    Yields reels (Signal.unison pitch (2 * half + 1) voice) fun S => S.Plays fun t =>
      ∑ k ∈ Finset.range (2 * half + 1), wave (pitch * 2 ^ (-(half : ℤ) + k)) t := by
  have hodd : ¬ ((2 * half + 1 : ℤ) ≤ 0 ∨ (2 * half + 1 : ℤ) % 2 = 0) := by omega
  have hhalf : (2 * half + 1 : ℤ) / 2 = half := by omega
  have hcount : (2 * half + 1 : ℤ).toNat = 2 * half + 1 := by omega
  unfold Signal.unison
  rw [if_neg hodd]
  simp only [hhalf, hcount]
  refine (yields_discard (yields_octaveFactor _)).bind fun _ _ =>
    (yields_discard (yields_octaveFactor _)).bind fun _ _ =>
      (yields_stack hvoice pitch _ _).bind fun parts hparts => ?_
  refine (yields_mix _).mono fun S hS later t => ?_
  rw [hS, List.toList_toArray, hparts]

end Unison

/-! ### The presets -/

/-- The envelope of a note: it rises for a tenth of a second, falls for some length, and fades out in
another tenth. -/
noncomputable def Envelope.ofLength (length : ℝ) : Envelope ℝ := ⟨0.1, length, 0.0, 0.1, 0.1⟩

theorem Envelope.isOrdered_ofLength {length : ℝ} (h : 0 ≤ length) : (ofLength length).IsOrdered :=
  ⟨by norm_num [ofLength], h, by norm_num [ofLength], by norm_num [ofLength]⟩

/-- The envelope that sweeps the pitch of the drum. -/
noncomputable def Envelope.sweep : Envelope ℝ := ⟨0.05, 1.0, 0.05, 0.05, 0.1⟩

theorem Envelope.isOrdered_sweep : sweep.IsOrdered := by
  constructor <;> norm_num [sweep]

/-- The time that a vibrato of five hertz between two factors lets pass. -/
noncomputable def vibratoPhase (t : ℝ) : ℝ := 0.025 * sinePrimitive 5 0 t + 1.075 * t

/-- **The note of a preset** as a function of time. -/
noncomputable def Preset.sound : Preset → ℝ → ℝ → ℝ → ℝ → ℝ
  | drum, note, _, volume, t =>
    sawtoothAt (note / 32) (Envelope.sweep.phase t) *
      (Envelope.ofLength 0.1).curve (Envelope.sweep.phase t) * (0.2 * volume)
  | dummy, note, length, volume, t =>
    sawtoothAt note (vibratoPhase t) * (Envelope.ofLength length).curve (vibratoPhase t) *
      (0.1 * volume)
  | legit, note, length, volume, t =>
    0.1 * (∑ k ∈ Finset.range 7, sineAt (note * 2 ^ (-3 + k : ℤ)) t) * (0.35 * sineAt 4 t + 0.65) *
      (Envelope.ofLength length).curve t * volume

/-- An envelope is wired, and is the polygon through its corners. -/
theorem Envelope.yields_toSignal {e : Envelope ℝ} (he : e.IsOrdered) :
    Yields reels e.toSignal (e.IsPolygon he) := (succeeds_toSignal he reels).yields (ensures_toSignal he)

/-- A signal that can be integrated, and what its antiderivative plays. -/
structure Signal.Integrates (s : Signal ℝ) (f : ℝ → ℝ) : Prop where
  elementary : s.All fun _ u => u.IsElementary
  primitive : s.primitive = f

theorem yields_vibratoSine : Yields reels (Signal.sine (5.0 : ℝ)) fun S =>
    S.Integrates (sinePrimitive 5 0) := by
  refine yields_place fun id => ⟨⟨.sine _ _, fun i => i.elim0⟩, ?_⟩
  show sinePrimitive 5.0 0.0 = _
  norm_num

theorem yields_vibrato (hF : F.Integrates (sinePrimitive 5 0)) :
    Yields reels (F.range 1.05 1.10) fun S => S.Integrates vibratoPhase := by
  refine yields_place fun id => ⟨⟨.affine (.range _ _), fun _ => hF.elementary⟩, ?_⟩
  funext t
  show (1.10 - 1.05) / 2 * F.primitive t + (1.10 + 1.05) / 2 * t = _
  rw [hF.primitive, vibratoPhase]
  norm_num

namespace Preset

variable (note : ℝ) {length : ℝ} (volume : ℝ)

theorem yields_playDrum (length : ℝ) : Yields reels (playDrum note length volume) fun S =>
    S.Plays (sound .drum note length volume) := by
  have hbell : (Envelope.ofLength 0.1).IsOrdered := Envelope.isOrdered_ofLength (by norm_num)
  refine (yields_sawtooth _).bind fun wave hwave => (Envelope.yields_toSignal hbell).bind fun env henv =>
    (yields_product hwave henv.plays_curve).bind fun body hbody => ?_
  refine (Envelope.yields_toSignal Envelope.isOrdered_sweep).bind fun sweep hsweep =>
    (yields_frequencyModulated hbody (hsweep.succeeds_integral reels)
      hsweep.primitive_eq_phase).bind fun swept hswept => ?_
  refine (yields_gain hswept _).mono fun S hS later t => ?_
  rw [hS, sound]
  norm_num

theorem yields_playDummy (hlength : 0 ≤ length) : Yields reels (playDummy note length volume) fun S =>
    S.Plays (sound .dummy note length volume) := by
  have hheld := Envelope.isOrdered_ofLength hlength
  refine (yields_sawtooth _).bind fun wave hwave => (Envelope.yields_toSignal hheld).bind fun env henv =>
    (yields_product hwave henv.plays_curve).bind fun body hbody => ?_
  refine yields_vibratoSine.bind fun sine hsine => (yields_vibrato hsine).bind fun vibrato hvibrato =>
    (yields_frequencyModulated hbody (Signal.succeeds_integral hvibrato.elementary)
      hvibrato.primitive).bind fun moved hmoved => ?_
  refine (yields_gain hmoved _).mono fun S hS later t => ?_
  rw [hS, sound]

theorem yields_playLegit (hlength : 0 ≤ length) : Yields reels (playLegit note length volume) fun S =>
    S.Plays (sound .legit note length volume) := by
  have hheld := Envelope.isOrdered_ofLength hlength
  refine (yields_unison yields_sine note 3).bind fun voices hvoices =>
    (yields_mix _).bind fun organ horgan => ?_
  have horgan' : organ.Plays fun t =>
      0.1 * ∑ k ∈ Finset.range 7, sineAt (note * 2 ^ (-3 + k : ℤ)) t := by
    intro later t
    rw [horgan]
    show (0.1 * voices.sample later t) + 0 = _
    rw [hvoices]
    exact add_zero _
  refine (yields_sine 4.0).bind fun sine hsine => (yields_range hsine _ _).bind fun tremolo htremolo =>
    (yields_product horgan' htremolo).bind fun moved hmoved => ?_
  refine (Envelope.yields_toSignal hheld).bind fun env henv =>
    (yields_product hmoved henv.plays_curve).bind fun shaped hshaped => ?_
  refine (yields_gain hshaped _).mono fun S hS later t => ?_
  rw [hS, sound]
  norm_num

/-- **Every preset plays every note**, and what it plays is its sound. -/
theorem yields_play (p : Preset) (hlength : 0 ≤ length) : Yields reels (p.play note length volume)
    fun S => S.Plays (p.sound note length volume) := by
  cases p with
  | drum => exact yields_playDrum note volume length
  | dummy => exact yields_playDummy note volume hlength
  | legit => exact yields_playLegit note volume hlength

end Preset

end Polyphony
