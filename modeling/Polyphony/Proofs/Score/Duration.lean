import Polyphony.Proofs.Score.Performance

/-!
# How long a piece lasts

The length of a piece is computed twice: from its score, and along the way when it is compiled.

* `Sequencer.Consecutive.isEnd`: notes without a gap end when all of them have lasted.
* `Score.isEnd_duration`, `Piece.isEnd_finishOf`: both computations give the end of notes, the one of all
  notes of the score, the other of those that have been played.
* `Score.durations_agree`: **the length of a score is that of its longest voice**, a piece whose notes are all
  played is as long, and no other one is longer.
-/

namespace Polyphony

open Wiring Piece

variable {notes notes' : List (Note ℝ)} {begin finish t t' : ℝ}

/-! ### The end of notes -/

/-- **The end of notes**: the time at which the last of them is over, and zero without notes. -/
def Score.IsEnd (notes : List (Note ℝ)) (t : ℝ) : Prop :=
  IsGreatest (insert 0 {t | ∃ n ∈ notes, n.finish = t}) t

/-- More notes do not end earlier. -/
theorem Score.IsEnd.mono (h : IsEnd notes t) (h' : IsEnd notes' t') (hsub : notes ⊆ notes') : t ≤ t' :=
  IsGreatest.mono h h' (Set.insert_subset_insert fun _ ⟨n, hn, hfinish⟩ => ⟨n, hsub hn, hfinish⟩)

/-- A running maximum is the largest of its times. -/
theorem Score.isGreatest_foldl_max (first : ℝ) (times : List ℝ) :
    IsGreatest {t | t ∈ first :: times} (times.foldl Scalar.max first) := by
  refine ⟨?_, le_foldl_max times first⟩
  induction times generalizing first with
  | nil => exact List.mem_singleton.2 rfl
  | cons next times ih =>
    rw [List.foldl_cons, max_eq]
    rcases max_choice first next with hmax | hmax
    · rw [hmax]
      rcases List.mem_cons.1 (ih first) with h | h
      · exact List.mem_cons.2 (.inl h)
      · exact List.mem_cons_of_mem _ (List.mem_cons_of_mem _ h)
    · rw [hmax]
      exact List.mem_cons_of_mem _ (ih next)

/-- **The end that a compilation accumulates** is that of the notes that have been played. -/
theorem Piece.isEnd_finishOf (played : List (Rendition ℝ)) :
    Score.IsEnd (played.map Rendition.note) (finishOf 0.0 played) := by
  have hfold : finishOf 0.0 played =
      (played.map fun r => r.note.finish).foldl Scalar.max 0.0 := List.foldl_map.symm
  have htimes : insert 0 {t | ∃ n ∈ played.map Rendition.note, n.finish = t} =
      {t | t ∈ (0.0 : ℝ) :: played.map fun r => r.note.finish} := by
    ext t
    simp [eq_comm]
  rw [Score.IsEnd, htimes, hfold]
  exact Score.isGreatest_foldl_max _ _

/-- **The length that is computed from a score** is the end of its notes. -/
theorem Score.isEnd_duration {tracks : List (Track ℝ)} (h : ∀ n ∈ tracks.flatMap id, 0 ≤ n.finish) :
    IsEnd (tracks.flatMap id) (Score.duration tracks) := by
  unfold Score.duration
  cases hnotes : tracks.flatMap id with
  | nil =>
    show IsGreatest _ (0.0 : ℝ)
    simp [isGreatest_singleton]
  | cons n rest =>
    obtain ⟨hmem, hbound⟩ := isGreatest_foldl_max n.finish (rest.map Note.finish)
    have hlast : n.finish ≤ (rest.map Note.finish).foldl Scalar.max n.finish := hbound List.mem_cons_self
    rw [hnotes] at h
    constructor
    · exact .inr (List.mem_map.1 hmem)
    · rintro t (rfl | ht)
      · exact (h n List.mem_cons_self).trans hlast
      · exact hbound (List.mem_map.2 ht)

/-! ### Voices -/

namespace Sequencer.Consecutive

variable {n : Note ℝ}

theorem tail (h : Consecutive begin (n :: notes) finish) :
    n.start = begin ∧ Consecutive n.finish notes finish := by
  have hstart : n.start = begin := h.first n rfl
  obtain ⟨hnext, hchain⟩ := List.isChain_cons.1 h.chain
  refine ⟨hstart, hnext, hchain, ?_⟩
  rw [h.total, List.map_cons, List.sum_cons, Note.finish, hstart, add_assoc]

theorem begin_le (h : Consecutive begin notes finish) (hlasts : ∀ n ∈ notes, 0 ≤ n.duration) :
    begin ≤ finish := by
  have hsum : 0 ≤ (notes.map Note.duration).sum :=
    List.sum_nonneg fun d hd => by
      obtain ⟨n, hn, rfl⟩ := List.mem_map.1 hd
      exact hlasts n hn
  rw [h.total]
  exact le_add_of_nonneg_right hsum

theorem finish_le (h : Consecutive begin notes finish) (hlasts : ∀ n ∈ notes, 0 ≤ n.duration) :
    ∀ n ∈ notes, n.finish ≤ finish := by
  induction notes generalizing begin with
  | nil => simp
  | cons n notes ih =>
    obtain ⟨-, htail⟩ := h.tail
    have hlater := (List.forall_mem_cons.1 hlasts).2
    exact List.forall_mem_cons.2 ⟨htail.begin_le hlater, ih htail hlater⟩

theorem exists_finish_eq (h : Consecutive begin notes finish) (hne : notes ≠ []) :
    ∃ n ∈ notes, n.finish = finish := by
  induction notes generalizing begin with
  | nil => exact absurd rfl hne
  | cons n notes ih =>
    obtain ⟨-, htail⟩ := h.tail
    by_cases hlast : notes = []
    · refine ⟨n, List.mem_cons_self, ?_⟩
      rw [htail.total, hlast, List.map_nil, List.sum_nil, add_zero]
    · obtain ⟨m, hm, hfinish⟩ := ih htail hlast
      exact ⟨m, List.mem_cons_of_mem _ hm, hfinish⟩

/-- **Notes without a gap end when all of them have lasted.** -/
theorem isEnd (h : Consecutive 0 notes finish) (hlasts : ∀ n ∈ notes, 0 ≤ n.duration) :
    Score.IsEnd notes (notes.map Note.duration).sum := by
  have htotal : finish = (notes.map Note.duration).sum := by rw [h.total, zero_add]
  rw [← htotal]
  constructor
  · by_cases hne : notes = []
    · exact .inl (by rw [htotal, hne, List.map_nil, List.sum_nil])
    · exact .inr (h.exists_finish_eq hne)
  · rintro t (rfl | ⟨n, hn, rfl⟩)
    · exact h.begin_le hlasts
    · exact h.finish_le hlasts n hn

end Sequencer.Consecutive

namespace Score

variable {policy : ErrorPolicy} {text : String} {tracks : List (Track ℝ)}

/-- A voice of a score ends when its notes have lasted. -/
theorem isEnd_of_read (hread : (Score.read policy text : Run ℝ (List (Track ℝ))).result = .ok tracks)
    (hnotes : notes ∈ tracks) : IsEnd notes (notes.map Note.duration).sum := by
  obtain ⟨ts, last, hcourse⟩ := exists_course_of_read hread hnotes
  have hgapless := hcourse.consecutive Sequencer.wellFormed_start
  rw [show (Sequencer.start : Sequencer ℝ).time = 0 from Exact.zero_lit] at hgapless
  exact hgapless.isEnd fun n hn => (wellFormed_of_read hread hnotes hn).duration_pos.le

/-- The score ends when the last of its notes does. -/
theorem isEnd_duration_of_read
    (hread : (Score.read policy text : Run ℝ (List (Track ℝ))).result = .ok tracks) :
    IsEnd (tracks.flatMap id) (Score.duration tracks) := by
  refine isEnd_duration fun n hn => ?_
  obtain ⟨notes, hnotes, hn⟩ := List.mem_flatMap.1 hn
  exact add_nonneg (start_nonneg_of_read hread hnotes hn)
    (wellFormed_of_read hread hnotes hn).duration_pos.le

/-- **A score is as long as its longest voice.** -/
theorem isGreatest_duration
    (hread : (Score.read policy text : Run ℝ (List (Track ℝ))).result = .ok tracks) :
    IsGreatest (insert 0 {t | ∃ notes ∈ tracks, (notes.map Note.duration).sum = t})
      (Score.duration tracks) := by
  have hscore := isEnd_duration_of_read hread
  have hvoice : ∀ notes ∈ tracks, (notes.map Note.duration).sum ≤ Score.duration tracks :=
    fun notes hnotes => (isEnd_of_read hread hnotes).mono hscore fun n hn =>
      List.mem_flatMap.2 ⟨notes, hnotes, hn⟩
  constructor
  · rcases hscore.1 with hzero | ⟨n, hn, hfinish⟩
    · exact .inl hzero
    · -- the voice of the last note ends with it
      obtain ⟨notes, hnotes, hn⟩ := List.mem_flatMap.1 hn
      have hle : n.finish ≤ (notes.map Note.duration).sum :=
        (isEnd_of_read hread hnotes).2 (.inr ⟨n, hn, rfl⟩)
      exact .inr ⟨notes, hnotes, le_antisymm (hvoice notes hnotes) (hfinish ▸ hle)⟩
  · rintro t (rfl | ⟨notes, hnotes, rfl⟩)
    · exact hscore.2 (.inl rfl)
    · exact hvoice notes hnotes

end Score

/-! ### Notes that are played -/

namespace Piece

/-- The notes that are wanted are those of the voices, with or without the rests. -/
theorem map_snd_wantedFrom {α : Type} (playRests : Bool) (track : ℕ) (tracks : List (Track α)) :
    (wantedFrom playRests track tracks).map Prod.snd =
      (tracks.flatMap id).filter fun n => !n.rest || playRests := by
  induction tracks generalizing track with
  | nil => rfl
  | cons notes tracks ih =>
    have hwanted : wantedFrom playRests track (notes :: tracks) =
        wantedOf playRests track notes ++ wantedFrom playRests (track + 1) tracks := rfl
    have hvoice : (wantedOf playRests track notes).map Prod.snd =
        notes.filter fun n => !n.rest || playRests := by
      rw [wantedOf, List.map_map]
      exact List.map_id _
    rw [hwanted, List.map_append, ih, hvoice, List.flatMap_cons, List.filter_append]
    rfl

end Piece

namespace Score

variable {policy : ErrorPolicy} {text : String} {tracks : List (Track ℝ)} {performer : Performer ℝ}
  {reels : Reels ℝ}

/-- **An instrument that plays every note** of a score, rests included, fills the length of the score. -/
theorem compile_of_succeeds {play : Play ℝ}
    (hread : (Score.read policy text : Run ℝ (List (Track ℝ))).result = .ok tracks)
    (hplay : performer.play? = .ok play)
    (hall : ∀ notes ∈ tracks, ∀ n ∈ notes, Succeeds reels (play n.frequency n.duration n.volume))
    (next : ℕ) :
    ∃ piece next' before, Score.compile policy performer true text reels next =
      ⟨before ++ [.entered (.compiled tracks.length (tracks.flatMap id).length (Score.duration tracks))],
        .ok (piece, next')⟩ := by
  obtain ⟨calls, fate, hcalled, -, hdone⟩ := compile_eq reels hplay true hread next
  obtain ⟨hfate, hplaces, -⟩ := hcalled.allPlayed (P := fun _ _ => True) fun w hw => by
    obtain ⟨notes, hnotes, hn⟩ := exists_of_mem_wanted hw
    exact (hall notes (List.mem_of_getElem? hnotes) _ hn).yields fun _ _ _ _ => trivial
  obtain ⟨piece, next', hpiece, -⟩ := hdone hfate
  -- what has been played are all notes of the score
  have hnotes : (renditions calls).map Rendition.note = tracks.flatMap id := by
    have hwanted : (wanted true tracks).map Prod.snd = _ := map_snd_wantedFrom true 0 tracks
    rw [← hplaces, List.map_map] at hwanted
    exact hwanted.trans (List.filter_eq_self.2 fun n _ => Bool.or_true _)
  have hend := isEnd_finishOf (renditions calls)
  rw [hnotes] at hend
  have hcount : (renditions calls).length = (tracks.flatMap id).length := by
    rw [← hnotes, List.length_map]
  rw [IsGreatest.unique hend (isEnd_duration_of_read hread), hcount] at hpiece
  exact ⟨piece, next', _, hpiece⟩

/-- **Whatever is left out of a piece**, it ends with the last note that has been played, and not after the
score. -/
theorem exists_played_of_compile {playRests : Bool} {next next' : ℕ} {piece : Signal ℝ}
    (hread : (Score.read policy text : Run ℝ (List (Track ℝ))).result = .ok tracks)
    (hresult : (Score.compile policy performer playRests text reels next).result = .ok (piece, next')) :
    ∃ play calls finish before, performer.play? = .ok play ∧
      Called reels policy play (wanted playRests tracks) calls none ∧
      Score.compile policy performer playRests text reels next =
        ⟨before ++ [.entered (.compiled tracks.length (renditions calls).length finish)],
          .ok (piece, next')⟩ ∧
      IsPiece tracks.length (renditions calls) piece ∧
      IsEnd ((renditions calls).map Rendition.note) finish ∧ finish ≤ Score.duration tracks := by
  cases hplay : performer.play? with
  | error fault =>
    rw [compile_of_play_error hplay] at hresult
    cases hresult
  | ok play =>
    obtain ⟨calls, fate, hcalled, hraised, hdone⟩ := compile_eq reels hplay playRests hread next
    cases fate with
    | some fault =>
      rw [hraised fault rfl] at hresult
      cases hresult
    | none =>
      obtain ⟨piece', next'', hpiece, hparts⟩ := hdone rfl
      rw [hpiece] at hresult
      cases hresult
      have hsub : (renditions calls).map Rendition.note ⊆ tracks.flatMap id := by
        intro n hn
        obtain ⟨r, hr, rfl⟩ := List.mem_map.1 hn
        obtain ⟨notes, hnotes, hn⟩ := exists_of_mem_wanted
          (hcalled.places_prefix.subset (exists_of_mem_renditions hr))
        exact List.mem_flatMap.2 ⟨notes, List.mem_of_getElem? hnotes, hn⟩
      have hend := isEnd_finishOf (renditions calls)
      exact ⟨play, calls, _, _, rfl, hcalled, hpiece, hparts, hend,
        hend.mono (isEnd_duration_of_read hread) hsub⟩

/-- **The two computations of a length agree.** A score is as long as its longest voice, whose notes last one
after the other. If an instrument plays every note, rests included, then the end that the compilation has
accumulated is just this length. In whatever compilation gives a piece, that end is the one of the notes that
the instrument has played of those that it was called for, and no later than the score's. -/
theorem durations_agree
    (hread : (Score.read policy text : Run ℝ (List (Track ℝ))).result = .ok tracks) :
    IsGreatest (insert 0 {t | ∃ notes ∈ tracks, (notes.map Note.duration).sum = t})
      (Score.duration tracks) ∧
    (∀ (performer : Performer ℝ) play reels next, performer.play? = .ok play →
      (∀ notes ∈ tracks, ∀ n ∈ notes, Succeeds reels (play n.frequency n.duration n.volume)) →
      ∃ piece next' before, Score.compile policy performer true text reels next =
        ⟨before ++ [.entered (.compiled tracks.length (tracks.flatMap id).length (Score.duration tracks))],
          .ok (piece, next')⟩) ∧
    ∀ (performer : Performer ℝ) playRests reels next piece next',
      (Score.compile policy performer playRests text reels next).result = .ok (piece, next') →
      ∃ play calls finish before, performer.play? = .ok play ∧
        Called reels policy play (wanted playRests tracks) calls none ∧
        Score.compile policy performer playRests text reels next =
          ⟨before ++ [.entered (.compiled tracks.length (renditions calls).length finish)],
            .ok (piece, next')⟩ ∧
        IsPiece tracks.length (renditions calls) piece ∧
        IsEnd ((renditions calls).map Rendition.note) finish ∧ finish ≤ Score.duration tracks :=
  ⟨isGreatest_duration hread,
    fun _ _ _ next hplay hall => compile_of_succeeds hread hplay hall next,
    fun _ _ _ _ _ _ hresult => exists_played_of_compile hread hresult⟩

/-- Two voices, the first of which begins with a rest, for a preset that is asked for the rest or is not. -/
theorem durations_agree_two_voices : ∃ tracks,
    (Score.read ⟨.strict, none⟩ "t99r8c,c>c#" : Run ℝ (List (Track ℝ))).result = .ok tracks ∧
    (∃ piece next' before,
      Score.compile ⟨.strict, none⟩ (.ofPreset .dummy) true "t99r8c,c>c#" #[] 0 = ⟨before ++
        [.entered (.compiled tracks.length (tracks.flatMap id).length (Score.duration tracks))],
          .ok (piece, next')⟩) ∧
    ∃ piece next' before notes finish,
      Score.compile ⟨.strict, none⟩ (.ofPreset .dummy) false "t99r8c,c>c#" #[] 0 =
        ⟨before ++ [.entered (.compiled tracks.length notes finish)], .ok (piece, next')⟩ ∧
      finish ≤ Score.duration tracks := by
  obtain ⟨tracks, hread⟩ : ∃ tracks,
      (Score.read ⟨.strict, none⟩ "t99r8c,c>c#" : Run ℝ (List (Track ℝ))).result = .ok tracks :=
    exists_read (by decide +kernel) fun _ => List.isEmpty_iff.1 (by decide +kernel)
  obtain ⟨-, hfull, hpart⟩ := durations_agree hread
  refine ⟨tracks, hread, hfull (.ofPreset .dummy) _ #[] 0 rfl fun notes hnotes n hn next => ?_, ?_⟩
  · have hlasts := (wellFormed_of_read hread hnotes hn).duration_pos.le
    obtain ⟨s, next', hs, -⟩ := Preset.dummy.yields_play n.frequency n.volume hlasts next
    exact ⟨s, next', hs⟩
  · obtain ⟨piece, next', hpiece, -⟩ := yields_compile .dummy false hread #[] 0
    obtain ⟨play, calls, finish, before, -, -, hcompile, -, -, hle⟩ := hpart _ _ _ _ _ _ hpiece
    exact ⟨piece, next', before, _, finish, hcompile, hle⟩

end Score

end Polyphony
