import Polyphony.Proofs.Instrument
import Polyphony.Proofs.Score.Row
import Polyphony.Proofs.Score.Warnings

/-!
# Pieces played by presets

In exact arithmetic a preset refuses no note, so every score that is read is compiled.

* `Score.exists_read`: a text with few enough digits is read, in strict mode if nothing is wrong with it.
* `Score.wellFormed_of_read`: the notes of a score are well formed.
* `Score.finish_le_duration`: none of them ends after the score.
* `Piece.Called.allPlayed`: an instrument that plays all notes that are wanted is called for all of them, and
  what it has played adds up to their sounds (`Piece.Played.sum_eq`).
* `Score.yields_compile`: **a piece of a preset is the sum of the sounds of its notes.**
-/

namespace Polyphony

open Wiring Piece

variable {policy : ErrorPolicy} {text : String} {tracks : List (Track ℝ)} {notes : Track ℝ}
  {n : Note ℝ}

/-! ### Scores that are read -/

namespace Score

variable {track : ℕ} {voice : List Char} {voices : List (List Char)}

/-- A voice with nothing wrong in it is read, in exact arithmetic. -/
theorem exists_read_voice (hblank : voice.all Text.isBlank = false)
    (hdigits : ∀ t ∈ Token.scan voice, t.isReadable = true)
    (hsound : policy.mode = .strict → (complaintsAt track voice : List (Fault ℝ)) = []) :
    ∃ notes, (Track.read policy (some track) voice : Run ℝ (Track ℝ)).result = .ok notes := by
  obtain ⟨last, notes, hcourse⟩ : ∃ last notes, Sequencer.Course policy.mode
      (Sequencer.start : Sequencer ℝ) (Token.scan voice) last notes := by
    refine (Sequencer.exists_course_iff Sequencer.ready_start).2 fun hmode t ht => ?_
    have hnone := hsound hmode
    rw [complaintsAt, if_neg (by simp [hblank]), Track.complaints, List.filterMap_eq_nil_iff] at hnone
    simpa using hnone t ht
  exact ⟨notes, Track.read_eq_ok_iff_course.2 ⟨hdigits, last, hcourse⟩⟩

theorem exists_readVoices (hdigits : ∀ voice ∈ voices, ∀ t ∈ Token.scan voice, t.isReadable = true)
    (hsound : policy.mode = .strict → (complaintsFrom track voices : List (Fault ℝ)) = []) :
    ∃ tracks, (readVoices policy track voices : Run ℝ (List (Track ℝ))).result = .ok tracks := by
  induction voices generalizing track with
  | nil => exact ⟨[], rfl⟩
  | cons voice voices ih =>
    obtain ⟨hfirst, hlater⟩ := List.forall_mem_cons.1 hdigits
    simp only [complaintsFrom_cons, List.append_eq_nil_iff] at hsound
    obtain ⟨tracks, htracks⟩ : ∃ tracks,
        (readVoices policy (track + 1) voices : Run ℝ (List (Track ℝ))).result = .ok tracks :=
      ih hlater fun hmode => (hsound hmode).2
    simp only [readVoices]
    cases hblank : voice.all Text.isBlank with
    | true =>
      -- a blank voice is a complaint, so the mode is the lenient one
      cases hmode : policy.mode with
      | strict =>
        have hnone := (hsound hmode).1
        rw [complaintsAt, if_pos hblank] at hnone
        cases hnone
      | lenient =>
        rw [if_pos rfl, Run.result_bind, excuse_lenient hmode]
        exact ⟨tracks, htracks⟩
    | false =>
      obtain ⟨notes, hnotes⟩ := exists_read_voice hblank hfirst fun hmode => (hsound hmode).1
      rw [if_neg (by simp), Run.result_bind, hnotes]
      refine ⟨notes :: tracks, ?_⟩
      show ((readVoices policy (track + 1) voices >>= fun rest => pure (notes :: rest)) : Run ℝ _).result = _
      rw [Run.result_bind, htracks]
      rfl

/-- **In exact arithmetic a text is read** if its digits can be, and in strict mode if besides nothing is
wrong with it. -/
theorem exists_read
    (hdigits : ∀ voice ∈ Score.voices text, ∀ t ∈ Token.scan voice, t.isReadable = true)
    (hsound : policy.mode = .strict → (complaints text : List (Fault ℝ)) = []) :
    ∃ tracks, (Score.read policy text : Run ℝ (List (Track ℝ))).result = .ok tracks :=
  exists_readVoices hdigits hsound

end Score

/-! ### The notes of a score -/

/-- No note starts before its voice does. -/
theorem Sequencer.Course.start_nonneg {mode : ErrorMode} {s last : Sequencer ℝ} {ts : List Token}
    (h : Course mode s ts last notes) (hs : s.WellFormed) : ∀ m ∈ notes, 0 ≤ m.start := by
  induction h with
  | nil => simp
  | step hstep _ ih =>
    obtain ⟨hafter, hn, -⟩ := hs.step hstep
    intro m hm
    rcases List.mem_append.1 hm with hm | hm
    · rw [(hn m hm).2]
      exact hs.time_nonneg
    · exact ih hafter m hm
  | skip _ _ _ ih => exact ih hs

namespace Score

/-- A voice that is read has its course. -/
theorem exists_course_of_read (h : (Score.read policy text : Run ℝ (List (Track ℝ))).result = .ok tracks)
    (hnotes : notes ∈ tracks) : ∃ ts last, Sequencer.Course policy.mode Sequencer.start ts last notes := by
  obtain ⟨k, hk⟩ := List.mem_iff_getElem?.1 hnotes
  obtain ⟨j, voice, -, -, hread, -⟩ := getElem?_of_readVoices h hk
  obtain ⟨-, last, hcourse⟩ := Track.read_eq_ok_iff_course.1 hread
  exact ⟨_, last, hcourse⟩

/-- **The notes of a score** are well formed. -/
theorem wellFormed_of_read (h : (Score.read policy text : Run ℝ (List (Track ℝ))).result = .ok tracks)
    (hnotes : notes ∈ tracks) (hn : n ∈ notes) : n.WellFormed := by
  obtain ⟨ts, last, hcourse⟩ := exists_course_of_read h hnotes
  exact (hcourse.wellFormed Sequencer.wellFormed_start).2 n hn

/-- No note of a score starts before the score does. -/
theorem start_nonneg_of_read (h : (Score.read policy text : Run ℝ (List (Track ℝ))).result = .ok tracks)
    (hnotes : notes ∈ tracks) (hn : n ∈ notes) : 0 ≤ n.start := by
  obtain ⟨ts, last, hcourse⟩ := exists_course_of_read h hnotes
  exact hcourse.start_nonneg Sequencer.wellFormed_start n hn

theorem max_eq (a b : ℝ) : Scalar.max a b = max a b := by
  unfold Scalar.max
  by_cases h : a < b
  · rw [if_pos (by simpa using h), max_eq_right h.le]
  · rw [if_neg (by simpa using h), max_eq_left (not_lt.1 h)]

theorem le_foldl_max (times : List ℝ) (first : ℝ) :
    ∀ t ∈ first :: times, t ≤ times.foldl Scalar.max first := by
  induction times generalizing first with
  | nil =>
    intro t ht
    rw [List.mem_singleton.1 ht]
    exact le_rfl
  | cons next times ih =>
    intro t ht
    have hbound := ih (Scalar.max first next)
    rw [max_eq] at hbound
    rw [List.foldl_cons, max_eq]
    have hmax := hbound _ List.mem_cons_self
    rcases List.mem_cons.1 ht with rfl | ht
    · exact (le_max_left _ _).trans hmax
    · rcases List.mem_cons.1 ht with rfl | ht
      · exact (le_max_right _ _).trans hmax
      · exact hbound t (List.mem_cons_of_mem _ ht)

/-- **No note ends after the score.** -/
theorem finish_le_duration (hnotes : notes ∈ tracks) (hn : n ∈ notes) :
    n.finish ≤ Score.duration tracks := by
  have hmem : n.finish ∈ (tracks.flatMap id).map Note.finish :=
    List.mem_map_of_mem (List.mem_flatMap.2 ⟨notes, hnotes, hn⟩)
  unfold Score.duration
  cases htimes : (tracks.flatMap id).map Note.finish with
  | nil =>
    rw [htimes] at hmem
    cases hmem
  | cons first times =>
    rw [htimes] at hmem
    exact le_foldl_max times first _ hmem

end Score

/-! ### Calls of an instrument that plays every note -/

section

variable {reels : Reels ℝ} {play : Play ℝ} {ws : List (ℕ × Note ℝ)} {calls : List (Call ℝ)}
  {fate : Option (Fault ℝ)} {sound : Note ℝ → ℝ → ℝ}

/-- What a call comes to whose note is played. -/
theorem Piece.Call.rendition?_of_yields (policy : ErrorPolicy) {w : ℕ × Note ℝ} {P : Signal ℝ → Prop}
    (h : Yields reels (play w.2.frequency w.2.duration w.2.volume) P) (next : ℕ) :
    (Call.make play reels next w).raised? policy = none ∧
      ∃ s, (Call.make play reels next w).rendition? = some ⟨w.1, w.2, s⟩ ∧ P s := by
  obtain ⟨s, next', hr, hs⟩ := h next
  have hanswer : (Call.make play reels next w).answer.result = .ok (s, next') := hr
  refine ⟨?_, s, ?_, hs⟩
  · rw [Call.raised?, hanswer]
  · rw [Call.rendition?, hanswer]
    rfl

/-- **What has been played** for notes: one rendition for each, in order, and each sounds as it should. -/
structure Piece.Played (sound : Note ℝ → ℝ → ℝ) (ws : List (ℕ × Note ℝ)) (played : List (Rendition ℝ)) :
    Prop where
  places : played.map (fun r => (r.track, r.note)) = ws
  plays : ∀ r ∈ played, r.signal.Plays (sound r.note)

/-- **An instrument that plays all notes that are wanted** is called for all of them, and all of them are
played. -/
theorem Piece.Called.allPlayed {P : Note ℝ → Signal ℝ → Prop} (h : Called reels policy play ws calls fate)
    (hplay : ∀ w ∈ ws, Yields reels (play w.2.frequency w.2.duration w.2.volume) (P w.2)) :
    fate = none ∧ (renditions calls).map (fun r => (r.track, r.note)) = ws ∧
      ∀ r ∈ renditions calls, P r.note r.signal := by
  induction h with
  | nil => exact ⟨rfl, rfl, fun r hr => absurd hr List.not_mem_nil⟩
  | @raised w rest next fault h =>
    obtain ⟨hnone, -⟩ := Call.rendition?_of_yields policy (hplay w List.mem_cons_self) next
    rw [hnone] at h
    cases h
  | @cons w rest next calls fate h hrest ih =>
    obtain ⟨-, s, hs, hP⟩ := Call.rendition?_of_yields policy (hplay w List.mem_cons_self) next
    obtain ⟨hfate, hplaces, hplayed⟩ := ih fun w hw => hplay w (List.mem_cons_of_mem _ hw)
    rw [renditions, List.filterMap_cons_some hs]
    exact ⟨hfate, congrArg (List.cons w) hplaces, List.forall_mem_cons.2 ⟨hP, hplayed⟩⟩

theorem Piece.Called.played (h : Called reels policy play ws calls fate)
    (hplay : ∀ w ∈ ws, Yields reels (play w.2.frequency w.2.duration w.2.volume) fun s =>
      s.Plays (sound w.2)) : fate = none ∧ Played sound ws (renditions calls) := by
  obtain ⟨hfate, hplaces, hplays⟩ := h.allPlayed (P := fun n s => s.Plays (sound n)) hplay
  exact ⟨hfate, hplaces, hplays⟩

/-- What has been played adds up to the sounds of the notes. -/
theorem Piece.Played.sum_eq {played : List (Rendition ℝ)} (h : Played sound ws played) (later : Reels ℝ)
    (t : ℝ) : (played.map fun r => r.signal.sample later (t - r.note.start)).sum =
      (ws.map fun w => sound w.2 (t - w.2.start)).sum := by
  rw [← h.places, List.map_map]
  exact congrArg List.sum (List.map_congr_left fun r hr => h.plays r hr later _)

end

/-! ### Pieces -/

/-- **A piece of a preset**: every score that is read is compiled, and the preset has played all notes that
are wanted. -/
theorem Score.yields_compile_played (p : Preset) (playRests : Bool)
    (hread : (Score.read policy text : Run ℝ (List (Track ℝ))).result = .ok tracks)
    (reels : Reels ℝ) :
    Yields reels (Score.compile policy (.ofPreset p) playRests text) fun piece => ∃ played,
      IsPiece tracks.length played piece ∧
      Played (fun n => p.sound n.frequency n.duration n.volume) (wanted playRests tracks) played := by
  intro next
  have hplay : (Performer.ofPreset p : Performer ℝ).play? = .ok p.play := rfl
  obtain ⟨calls, fate, hcalled, -, hdone⟩ := compile_eq reels hplay playRests hread next
  have hwell : ∀ w ∈ wanted playRests tracks, w.2.WellFormed := by
    intro w hw
    obtain ⟨notes, hnotes, hn⟩ := exists_of_mem_wanted hw
    exact wellFormed_of_read hread (List.mem_of_getElem? hnotes) hn
  have hplays : ∀ w ∈ wanted playRests tracks,
      Yields reels (p.play w.2.frequency w.2.duration w.2.volume) fun s =>
        s.Plays (p.sound w.2.frequency w.2.duration w.2.volume) :=
    fun w hw => p.yields_play _ _ (hwell w hw).duration_pos.le
  let sound (n : Note ℝ) : ℝ → ℝ := p.sound n.frequency n.duration n.volume
  obtain ⟨hfate, hplayed⟩ : fate = none ∧ Played sound _ (renditions calls) := hcalled.played hplays
  obtain ⟨piece, next', hpiece, hparts⟩ := hdone hfate
  exact ⟨piece, next', by rw [hpiece], renditions calls, hparts, hplayed⟩

/-- What has been played is for notes of the score. -/
theorem Score.wellFormed_of_played {sound : Note ℝ → ℝ → ℝ} {playRests : Bool}
    {played : List (Rendition ℝ)} {r : Rendition ℝ}
    (hread : (Score.read policy text : Run ℝ (List (Track ℝ))).result = .ok tracks)
    (h : Played sound (wanted playRests tracks) played) (hr : r ∈ played) :
    r.note.WellFormed ∧ 0 ≤ r.note.start := by
  have hmem : (r.track, r.note) ∈ wanted playRests tracks := h.places ▸ List.mem_map_of_mem hr
  obtain ⟨notes, hnotes, hn⟩ := exists_of_mem_wanted hmem
  have htrack := List.mem_of_getElem? hnotes
  exact ⟨wellFormed_of_read hread htrack hn, start_nonneg_of_read hread htrack hn⟩

/-- **A piece of a preset** is the sum of the sounds of its notes, each at the time since its start. -/
theorem Score.yields_compile (p : Preset) (playRests : Bool)
    (hread : (Score.read policy text : Run ℝ (List (Track ℝ))).result = .ok tracks)
    (reels : Reels ℝ) :
    Yields reels (Score.compile policy (.ofPreset p) playRests text) fun piece =>
      piece.Plays fun t => ((wanted playRests tracks).map fun w =>
        p.sound w.2.frequency w.2.duration w.2.volume (t - w.2.start)).sum := by
  refine (yields_compile_played p playRests hread reels).mono ?_
  rintro piece ⟨played, hpiece, hplayed⟩ later t
  rw [hpiece.sample_eq, hplayed.sum_eq]

end Polyphony
