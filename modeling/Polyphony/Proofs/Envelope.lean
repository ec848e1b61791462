import Mathlib
import Polyphony.Envelope
import Polyphony.Proofs.Signal.Stages

/-!
# The phase of an envelope

An envelope is a polygon through five corners, wired as four gated lines. Its antiderivative drives
the phase of a frequency modulation.

* `Envelope.schedule`, `Envelope.height`: the times and the heights of the corners.
* `Envelope.ensures_toSignal`: what is wired is in stages, and plays a line in each of them.
* `Envelope.phase_in_stages`: the phase **starts afresh in every stage**. It runs forwards as long as
  no stage ends that sounds, and at all times only if none of them sounds.
* `Envelope.phase_runs_backwards`: so the phase of an envelope need not run forwards.
-/

namespace Polyphony

open Wiring Exact

/-! ### Lines and gates as they are wired -/

/-- The line through two points, the constant of the first one if they have the same time. -/
noncomputable def lineBetween (t0 v0 t1 v1 t : ℝ) : ℝ := v0 + (v1 - v0) * ((t - t0) / (t1 - t0))

/-- The signal is affine and plays a function of time. -/
structure Signal.IsLine (s : Signal ℝ) (f : ℝ → ℝ) : Prop where
  affine : s.All fun _ u => u.IsAffine
  plays : s.Plays f

variable {reels : Reels ℝ}

theorem ensures_affine_line (a0 a1 : ℝ) :
    Ensures reels (Signal.line a0 a1) fun S => S.IsLine fun t => a0 + t * a1 :=
  ensures_place fun _ => ⟨⟨.line a0 a1, fun i => i.elim0⟩, fun _ _ => rfl⟩

theorem ensures_affine_constant (value : ℝ) :
    Ensures reels (Signal.constant value) fun S => S.IsLine fun _ => value :=
  ensures_place fun _ => ⟨⟨.constant value, fun i => i.elim0⟩, fun _ _ => rfl⟩

theorem lineBetween_self (t0 v t1 : ℝ) : lineBetween t0 v t1 v = fun _ => v := by
  funext t
  rw [lineBetween, sub_self, zero_mul, add_zero]

theorem lineBetween_nonneg {t0 v0 t1 v1 t : ℝ} (hv0 : 0 ≤ v0) (hv1 : 0 ≤ v1) (h0 : t0 ≤ t)
    (h1 : t ≤ t1) : 0 ≤ lineBetween t0 v0 t1 v1 t := by
  have hx0 : 0 ≤ (t - t0) / (t1 - t0) := div_nonneg (by linarith) (by linarith)
  have hx1 : (t - t0) / (t1 - t0) ≤ 1 := div_le_one_of_le₀ (by linarith) (by linarith)
  have hmean : lineBetween t0 v0 t1 v1 t =
      (1 - (t - t0) / (t1 - t0)) * v0 + (t - t0) / (t1 - t0) * v1 := by
    rw [lineBetween]
    ring
  rw [hmean]
  have hleft : 0 ≤ 1 - (t - t0) / (t1 - t0) := by linarith
  positivity

theorem ensures_lineThrough (t0 v0 t1 v1 : ℝ) :
    Ensures reels (Signal.lineThrough t0 v0 t1 v1) fun S => S.IsLine (lineBetween t0 v0 t1 v1) := by
  unfold Signal.lineThrough
  by_cases ht : t1 = t0
  · rw [if_pos (by simpa using ht)]
    refine (ensures_enter _).bind fun _ _ => (ensures_affine_line _ _).mono fun S hS => ?_
    refine ⟨hS.affine, fun later t => ?_⟩
    rw [hS.plays, lineBetween, zero_lit, ht, sub_self, div_zero]
    ring
  · rw [if_neg (by simpa using ht)]
    refine (ensures_affine_line _ _).mono fun S hS => ⟨hS.affine, fun later t => ?_⟩
    rw [hS.plays, lineBetween]
    ring

theorem succeeds_lineThrough {α : Type} [Scalar α] {reels : Reels α} (t0 v0 t1 v1 : α) :
    Succeeds reels (Signal.lineThrough t0 v0 t1 v1) := by
  unfold Signal.lineThrough
  split
  · exact (succeeds_enter _).bind fun _ => succeeds_place _ _
  · exact succeeds_place _ _

theorem gate_eq (s : Signal ℝ) (span : Span ℝ) :
    s.gate span.start span.finish = Signal.through (.gate span) s := by
  unfold Signal.gate Span.make?
  rw [dif_pos span.ordered]

/-! ### The corners of an envelope -/

namespace Envelope

/-- No stage is negative. -/
structure IsOrdered (e : Envelope ℝ) : Prop where
  attack_nonneg : 0 ≤ e.attack
  decay_nonneg : 0 ≤ e.decay
  sustain_nonneg : 0 ≤ e.sustain
  release_nonneg : 0 ≤ e.release

variable {e : Envelope ℝ}

/-- **The times of the corners.** -/
noncomputable def schedule (e : Envelope ℝ) (he : e.IsOrdered) : Schedule 4 where
  time := ![0, e.attack, e.attack + e.decay, e.attack + e.decay + e.sustain,
    e.attack + e.decay + e.sustain + e.release]
  ordered := by
    rw [Fin.monotone_iff_le_succ]
    intro i
    fin_cases i
    · exact he.attack_nonneg
    · exact le_add_of_nonneg_right he.decay_nonneg
    · exact le_add_of_nonneg_right he.sustain_nonneg
    · exact le_add_of_nonneg_right he.release_nonneg

/-- **The heights of the corners.** -/
noncomputable def height (e : Envelope ℝ) : Fin 5 → ℝ := ![0, 1, e.level, e.level, 0]

/-- The line from one corner to the next. -/
noncomputable def side (e : Envelope ℝ) (he : e.IsOrdered) (i : Fin 4) : ℝ → ℝ :=
  lineBetween ((e.schedule he).time i.castSucc) (e.height i.castSucc)
    ((e.schedule he).time i.succ) (e.height i.succ)

/-- **The polygon through the corners**: the line of each stage through a gate, and these mixed. -/
def IsPolygon (e : Envelope ℝ) (he : e.IsOrdered) (s : Signal ℝ) : Prop :=
  ∃ sources : Fin 4 → Signal ℝ, s.InStages (e.schedule he) sources ∧
    ∀ i, (sources i).IsLine (e.side he i)

/-! ### What is wired -/

/-- A line through the gate of a stage. -/
def IsGated (he : e.IsOrdered) (i : Fin 4) (s : Signal ℝ) : Prop :=
  ∃ (id : ℕ) (source : Signal ℝ), s = .node id (.gate ((e.schedule he).span i)) (fun _ => source) ∧
    source.IsLine (e.side he i)

variable (he : e.IsOrdered)

include he

theorem find?_stages_eq_none :
    (e.stages.find? fun (_, seconds) => Scalar.lt seconds 0.0) = none := by
  simp [stages, he.attack_nonneg, he.decay_nonneg, he.sustain_nonneg, he.release_nonneg]

theorem gate_stage (i : Fin 4) (start finish : ℝ)
    (hstart : (e.schedule he).time i.castSucc = start)
    (hfinish : (e.schedule he).time i.succ = finish) (s : Signal ℝ) :
    s.gate start finish = Signal.through (.gate ((e.schedule he).span i)) s := by
  subst hstart hfinish
  exact gate_eq s ((e.schedule he).span i)

/-- **How an envelope is wired**: no gate is refused. -/
theorem toSignal_eq : e.toSignal = (do
    let attack ← Signal.through (.gate ((e.schedule he).span 0))
      (← Signal.lineThrough 0.0 0.0 e.attack 1.0)
    let decay ← Signal.through (.gate ((e.schedule he).span 1))
      (← Signal.lineThrough e.attack 1.0 (e.attack + e.decay) e.level)
    let sustain ← Signal.through (.gate ((e.schedule he).span 2)) (← Signal.constant e.level)
    let release ← Signal.through (.gate ((e.schedule he).span 3))
      (← Signal.lineThrough (e.attack + e.decay + e.sustain) e.level
        (e.attack + e.decay + e.sustain + e.release) 0.0)
    Signal.mix #[(1.0, attack), (1.0, decay), (1.0, sustain), (1.0, release)]) := by
  have hattack := gate_stage he 0 0.0 e.attack zero_lit.symm rfl
  have hdecay := gate_stage he 1 e.attack (e.attack + e.decay) rfl rfl
  have hsustain := gate_stage he 2 (e.attack + e.decay) (e.attack + e.decay + e.sustain) rfl rfl
  have hrelease := gate_stage he 3 (e.attack + e.decay + e.sustain)
    (e.attack + e.decay + e.sustain + e.release) rfl rfl
  unfold toSignal
  simp only [find?_stages_eq_none he, hattack, hdecay, hsustain, hrelease]

theorem succeeds_toSignal (reels : Reels ℝ) : Succeeds reels e.toSignal := by
  rw [toSignal_eq he]
  refine (succeeds_lineThrough _ _ _ _).bind fun _ => Succeeds.bind (succeeds_place _ _) fun _ => ?_
  refine (succeeds_lineThrough _ _ _ _).bind fun _ => Succeeds.bind (succeeds_place _ _) fun _ => ?_
  refine Succeeds.bind (succeeds_place _ _) fun _ => Succeeds.bind (succeeds_place _ _) fun _ => ?_
  refine (succeeds_lineThrough _ _ _ _).bind fun _ => Succeeds.bind (succeeds_place _ _) fun _ => ?_
  exact succeeds_place _ _

theorem ensures_isGated (i : Fin 4) {s : Signal ℝ} (hs : s.IsLine (e.side he i)) :
    Ensures reels (Signal.through (.gate ((e.schedule he).span i)) s) (IsGated he i) :=
  ensures_place fun id => ⟨id, s, rfl, hs⟩

/-- Four gated lines make the polygon. -/
theorem isPolygon_mix (id : ℕ) {parts : Fin 4 → Signal ℝ} (hparts : ∀ i, IsGated he i (parts i)) :
    e.IsPolygon he (.node id (.mix fun _ => 1.0) parts) := by
  choose ids sources heq hline using hparts
  refine ⟨sources, ⟨id, ids, ?_⟩, hline⟩
  rw [funext heq]

/-- **What is wired for an envelope** is the polygon through its corners. -/
theorem ensures_toSignal : Ensures reels e.toSignal (e.IsPolygon he) := by
  rw [toSignal_eq he]
  refine (ensures_lineThrough _ _ _ _).bind fun A hA =>
    (ensures_isGated he 0 ?_).bind fun attack hattack => ?_
  · simpa [side, height, schedule] using hA
  refine (ensures_lineThrough _ _ _ _).bind fun D hD =>
    (ensures_isGated he 1 ?_).bind fun decay hdecay => ?_
  · simpa [side, height, schedule] using hD
  refine (ensures_affine_constant _).bind fun S hS =>
    (ensures_isGated he 2 ?_).bind fun sustain hsustain => ?_
  · simpa [side, height, schedule, lineBetween_self] using hS
  refine (ensures_lineThrough _ _ _ _).bind fun R hR =>
    (ensures_isGated he 3 ?_).bind fun release hrelease => ?_
  · simpa [side, height, schedule] using hR
  have hparts : ∀ i : Fin 4, IsGated he i (![attack, decay, sustain, release] i) := by
    intro i
    fin_cases i
    · exact hattack
    · exact hdecay
    · exact hsustain
    · exact hrelease
  have hgains : (fun i : Fin 4 =>
      #[((1.0 : ℝ), attack), (1.0, decay), (1.0, sustain), (1.0, release)][i].1) = fun _ => 1.0 := by
    funext i
    fin_cases i <;> rfl
  have hinputs : (fun i : Fin 4 =>
      #[((1.0 : ℝ), attack), (1.0, decay), (1.0, sustain), (1.0, release)][i].2) =
        ![attack, decay, sustain, release] := by
    funext i
    fin_cases i <;> rfl
  refine ensures_place fun id => ?_
  have hpolygon := isPolygon_mix he id hparts
  rw [← hgains, ← hinputs] at hpolygon
  exact hpolygon

/-! ### Where it sounds -/

omit he

/-- The stage lasts, and one of its corners is above silence. -/
def Sounds (e : Envelope ℝ) (he : e.IsOrdered) (i : Fin 4) : Prop :=
  (e.schedule he).time i.castSucc < (e.schedule he).time i.succ ∧
    (e.height i.castSucc ≠ 0 ∨ e.height i.succ ≠ 0)

/-- **Silent envelopes**, stage by stage. -/
theorem forall_not_sounds_iff (he : e.IsOrdered) : (∀ i, ¬ e.Sounds he i) ↔
    e.attack = 0 ∧ e.decay = 0 ∧ (e.level = 0 ∨ e.sustain = 0 ∧ e.release = 0) := by
  have hattack : e.Sounds he 0 ↔ e.attack ≠ 0 := by
    simp [Sounds, schedule, height, he.attack_nonneg.lt_iff_ne']
  have hdecay : e.Sounds he 1 ↔ e.decay ≠ 0 := by
    simp [Sounds, schedule, height, he.decay_nonneg.lt_iff_ne']
  have hsustain : e.Sounds he 2 ↔ e.sustain ≠ 0 ∧ e.level ≠ 0 := by
    simp [Sounds, schedule, height, he.sustain_nonneg.lt_iff_ne']
  have hrelease : e.Sounds he 3 ↔ e.release ≠ 0 ∧ e.level ≠ 0 := by
    simp [Sounds, schedule, height, he.release_nonneg.lt_iff_ne']
  simp only [Fin.forall_fin_succ, IsEmpty.forall_iff, and_true]
  show ¬ e.Sounds he 0 ∧ ¬ e.Sounds he 1 ∧ ¬ e.Sounds he 2 ∧ ¬ e.Sounds he 3 ↔ _
  rw [hattack, hdecay, hsustain, hrelease]
  tauto

theorem height_nonneg (hlevel : 0 ≤ e.level) (k : Fin 5) : 0 ≤ e.height k := by
  fin_cases k
  · exact le_rfl
  · exact zero_le_one
  · exact hlevel
  · exact hlevel
  · exact le_rfl

namespace IsPolygon

variable {he : e.IsOrdered} {s : Signal ℝ} {i : Fin 4} {t u : ℝ} {later : Reels ℝ}

theorem sample_of_mem (h : e.IsPolygon he s) (ht : t ∈ (e.schedule he).stage i) :
    s.sample later t = e.side he i t := by
  obtain ⟨sources, hstages, hlines⟩ := h
  rw [hstages.sample_of_mem ht, (hlines i).plays]

theorem sample_nonneg (h : e.IsPolygon he s) (hlevel : 0 ≤ e.level) (t : ℝ) :
    0 ≤ s.sample later t := by
  by_cases ht : ∃ i, t ∈ (e.schedule he).stage i
  · obtain ⟨i, hi⟩ := ht
    rw [h.sample_of_mem hi]
    exact lineBetween_nonneg (height_nonneg hlevel _) (height_nonneg hlevel _) hi.1 hi.2.le
  · obtain ⟨sources, hstages, -⟩ := h
    push Not at ht
    exact (hstages.sample_of_forall_notMem ht).ge

/-- The area of a stage up to some time of it. -/
theorem primitive_of_mem (h : e.IsPolygon he s) (ht : t ∈ (e.schedule he).stage i) :
    s.primitive t = (t - (e.schedule he).time i.castSucc) *
      (e.height i.castSucc + e.side he i t) / 2 := by
  have hbegin : (e.schedule he).time i.castSucc ∈ (e.schedule he).stage i :=
    ⟨le_rfl, ht.1.trans_lt ht.2⟩
  have hcorner : e.side he i ((e.schedule he).time i.castSucc) = e.height i.castSucc := by
    simp [side, lineBetween]
  have hsides : s.sample #[] ((e.schedule he).time i.castSucc) + s.sample #[] t =
      e.height i.castSucc + e.side he i t := by
    rw [h.sample_of_mem hbegin, h.sample_of_mem ht, hcorner]
  obtain ⟨sources, hstages, hlines⟩ := h
  have harea := hstages.primitive_sub_of_mem (fun i => (hlines i).affine) #[] hbegin ht
  rwa [hstages.primitive_time, sub_zero, hsides] at harea

/-- **A stage leaves zero exactly if it sounds.** -/
theorem exists_pos_iff (h : e.IsPolygon he s) (hlevel : 0 ≤ e.level) :
    (∃ t ∈ (e.schedule he).stage i, 0 < s.primitive t) ↔ e.Sounds he i := by
  constructor
  · rintro ⟨t, ht, hpos⟩
    refine ⟨ht.1.trans_lt ht.2, ?_⟩
    by_contra hsilent
    push Not at hsilent
    have hzero : s.primitive t = 0 := by
      simp [h.primitive_of_mem ht, side, lineBetween, hsilent.1, hsilent.2]
    exact absurd hzero hpos.ne'
  · rintro ⟨hlast, hheight⟩
    -- half of the stage is enough
    set t0 := (e.schedule he).time i.castSucc with ht0
    set t1 := (e.schedule he).time i.succ with ht1
    have hmid : (t0 + t1) / 2 ∈ (e.schedule he).stage i :=
      ⟨by rw [← ht0]; linarith, by rw [← ht1]; linarith⟩
    refine ⟨_, hmid, ?_⟩
    have hside : e.side he i ((t0 + t1) / 2) = (e.height i.castSucc + e.height i.succ) / 2 := by
      have hne : t1 - t0 ≠ 0 := sub_ne_zero.2 hlast.ne'
      rw [side, lineBetween, ← ht0, ← ht1]
      field_simp
      ring
    have hsum : 0 < e.height i.castSucc + e.height i.succ := by
      have h0 := height_nonneg hlevel i.castSucc
      have h1 := height_nonneg hlevel i.succ
      rcases hheight with hne | hne
      · linarith [lt_of_le_of_ne h0 (Ne.symm hne)]
      · linarith [lt_of_le_of_ne h1 (Ne.symm hne)]
    rw [h.primitive_of_mem hmid, hside, ← ht0]
    have h0 := height_nonneg hlevel i.castSucc
    have hlength : 0 < (t0 + t1) / 2 - t0 := by linarith
    positivity

/-- **The phase runs forwards at all times** only if nothing sounds. -/
theorem monotone_primitive_iff (h : e.IsPolygon he s) (hlevel : 0 ≤ e.level) :
    Monotone s.primitive ↔
      e.attack = 0 ∧ e.decay = 0 ∧ (e.level = 0 ∨ e.sustain = 0 ∧ e.release = 0) := by
  rw [← forall_not_sounds_iff he]
  have hnonneg : ∀ t, 0 ≤ s.sample #[] t := h.sample_nonneg hlevel
  have hsounds : ∀ i, e.Sounds he i ↔ ∃ t ∈ (e.schedule he).stage i, 0 < s.primitive t :=
    fun i => (h.exists_pos_iff hlevel).symm
  obtain ⟨sources, hstages, hlines⟩ := h
  have haffine := fun i => (hlines i).affine
  rw [hstages.monotone_primitive_iff haffine hnonneg]
  refine forall_congr' fun i => ?_
  rw [hsounds]
  push Not
  refine forall₂_congr fun t _ => ?_
  exact ⟨fun hzero => hzero.le, fun hle => le_antisymm hle (hstages.primitive_nonneg haffine hnonneg t)⟩

end IsPolygon

/-- An envelope that is wired is integrated. -/
theorem IsPolygon.succeeds_integral {he : e.IsOrdered} {s : Signal ℝ} (h : e.IsPolygon he s)
    (reels : Reels ℝ) : Succeeds reels s.integral := by
  obtain ⟨sources, hstages, hlines⟩ := h
  exact hstages.succeeds_integral fun i =>
    Signal.succeeds_integral ((hlines i).affine.mono fun _ _ hu => .affine hu)

/-- **The phase of an envelope starts afresh in every stage.** Wiring an envelope without negative
stages and integrating it succeeds. In each stage the integral is the area under the envelope since
the stage began, and outside the stages it is zero. It runs forwards as long as no stage ends that
sounds, and falls where one does; so it runs forwards at all times exactly if nothing sounds. -/
theorem phase_in_stages (he : e.IsOrdered) (hlevel : 0 ≤ e.level) (reels : Reels ℝ) (next : ℕ) :
    ∃ env next', (e.toSignal reels next).result = .ok (env, next') ∧
    ∃ phase next'', (env.integral reels next').result = .ok (phase, next'') ∧ ∀ later,
      (∀ i, ∀ t ∈ (e.schedule he).stage i,
        phase.sample later t = ∫ u in (e.schedule he).time i.castSucc..t, env.sample later u) ∧
      (∀ t, t < 0 ∨ e.attack + e.decay + e.sustain + e.release ≤ t → phase.sample later t = 0) ∧
      (∀ u t, u ≤ t →
        (∀ i, e.Sounds he i → u < (e.schedule he).time i.succ → t < (e.schedule he).time i.succ) →
        phase.sample later u ≤ phase.sample later t) ∧
      (∀ i, e.Sounds he i → ∃ u ∈ (e.schedule he).stage i,
        phase.sample later ((e.schedule he).time i.succ) < phase.sample later u) ∧
      (Monotone (phase.sample later) ↔
        e.attack = 0 ∧ e.decay = 0 ∧ (e.level = 0 ∨ e.sustain = 0 ∧ e.release = 0)) := by
  obtain ⟨env, next', henv⟩ := succeeds_toSignal he reels next
  have hpolygon : e.IsPolygon he env := ensures_toSignal he next env next' henv
  obtain ⟨phase, next'', hphase⟩ := hpolygon.succeeds_integral reels next'
  have hplays : ∀ later, phase.sample later = env.primitive := fun later =>
    funext fun t => Signal.ensures_integral env next' phase next'' hphase later t
  refine ⟨env, next', henv, phase, next'', hphase, fun later => ?_⟩
  have hmonotone := hpolygon.monotone_primitive_iff hlevel
  have hnonneg : ∀ t, 0 ≤ env.sample later t := hpolygon.sample_nonneg hlevel
  have hsounds : ∀ i, (∃ t ∈ (e.schedule he).stage i, 0 < env.primitive t) ↔ e.Sounds he i :=
    fun i => hpolygon.exists_pos_iff hlevel
  obtain ⟨sources, hstages, hlines⟩ := hpolygon
  have haffine := fun i => (hlines i).affine
  rw [hplays]
  refine ⟨?_, ?_, ?_, ?_, hmonotone⟩
  · intro i t ht
    exact hstages.primitive_eq_integral haffine later ht
  · intro t ht
    refine hstages.primitive_of_forall_notMem fun i hi => ?_
    have hfirst : (0 : ℝ) ≤ (e.schedule he).time i.castSucc := (e.schedule he).ordered (Fin.zero_le _)
    have hlast : (e.schedule he).time i.succ ≤ (e.schedule he).time (Fin.last 4) :=
      (e.schedule he).ordered (Fin.le_last _)
    rcases ht with hlt | hle
    · exact absurd (hfirst.trans hi.1) (not_le.2 hlt)
    · exact absurd (hi.2.trans_le hlast) (not_lt.2 hle)
  · intro u t hut hend
    exact hstages.primitive_le haffine hnonneg hut fun i hi => hend i ((hsounds i).1 hi)
  · intro i hi
    obtain ⟨u, hu, hpos⟩ := (hsounds i).2 hi
    exact ⟨u, hu, by rwa [hstages.primitive_time]⟩

/-- Attack, decay, sustain and release of a second each, on half the height. -/
noncomputable def ofSeconds : Envelope ℝ := ⟨1, 1, 1, 1, 1 / 2⟩

theorem isOrdered_ofSeconds : ofSeconds.IsOrdered := by
  constructor <;> norm_num [ofSeconds]

/-- **The phase of an envelope can run backwards**, although the envelope is never negative. -/
theorem phase_runs_backwards :
    ¬ ∀ (e : Envelope ℝ), e.IsOrdered → 0 ≤ e.level → e.level ≤ 1 →
      ∀ (reels : Reels ℝ) (next next' next'' : ℕ) (env phase : Signal ℝ),
        (e.toSignal reels next).result = .ok (env, next') →
        (env.integral reels next').result = .ok (phase, next'') → Monotone (phase.sample reels) := by
  intro h
  have he := isOrdered_ofSeconds
  obtain ⟨env, next', henv⟩ := succeeds_toSignal he #[] 0
  have hpolygon : ofSeconds.IsPolygon he env := ensures_toSignal he 0 env next' henv
  obtain ⟨phase, next'', hphase⟩ := hpolygon.succeeds_integral #[] next'
  have hmonotone := h ofSeconds he (by norm_num [ofSeconds]) (by norm_num [ofSeconds]) #[] 0 next'
    next'' env phase henv hphase
  have hplays : phase.sample #[] = env.primitive :=
    funext fun t => Signal.ensures_integral env next' phase next'' hphase #[] t
  rw [hplays, hpolygon.monotone_primitive_iff (by norm_num [ofSeconds])] at hmonotone
  exact one_ne_zero hmonotone.1

/-- With stages of a second each, the phase rises during the attack and is zero again at its end. -/
theorem phase_in_stages_of_seconds :
    ofSeconds.IsOrdered ∧ 0 ≤ ofSeconds.level ∧
    ∃ env next', (ofSeconds.toSignal (#[] : Reels ℝ) 0).result = .ok (env, next') ∧
    ∃ phase next'', (env.integral #[] next').result = .ok (phase, next'') ∧
      phase.sample #[] (1 / 4) ≤ phase.sample #[] (1 / 2) ∧ phase.sample #[] 4 = 0 ∧
      ¬ Monotone (phase.sample #[]) := by
  have hlevel : 0 ≤ ofSeconds.level := by norm_num [ofSeconds]
  obtain ⟨env, next', henv, phase, next'', hphase, h⟩ :=
    phase_in_stages isOrdered_ofSeconds hlevel #[] 0
  obtain ⟨-, houtside, hforwards, -, hmonotone⟩ := h #[]
  refine ⟨isOrdered_ofSeconds, hlevel, env, next', henv, phase, next'', hphase, ?_, ?_, ?_⟩
  · refine hforwards _ _ (by norm_num) fun i _ _ => ?_
    -- the first stage to end does so after a second
    have hle : (1 : ℝ) ≤ (ofSeconds.schedule isOrdered_ofSeconds).time i.succ :=
      (ofSeconds.schedule isOrdered_ofSeconds).ordered (Fin.succ_le_succ_iff.2 (Fin.zero_le i))
    linarith
  · exact houtside 4 (.inr (by norm_num [ofSeconds]))
  · rw [hmonotone]
    norm_num [ofSeconds]

end Envelope

end Polyphony
