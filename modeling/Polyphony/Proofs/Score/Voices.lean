import Mathlib
import Polyphony.Proofs.Score.Row

/-!
# Voices in sequence and side by side

The octave, the tempo, the length, the volume and the time are all that is remembered within a voice, and
nothing is remembered from one voice to the next.

* `Sequencer.Course.time_eq`: the time of a state is when the last note is over.
* `Sequencer.Course.delayed`: in exact arithmetic, tokens at a later time give the same notes, later.
* `Track.resetText`: the settings that every voice begins with, written out.
* `Track.read_reset`: **a voice after another one**, with these settings between them.
* `Score.voices_intercalate`: the voices of a text that joins them by commas.
* `Score.readVoices_eq_mapM`: each voice is read by itself.
* `Score.voices_compose`: both together.
-/

namespace Polyphony

open Text

/-- A note that comes later. -/
noncomputable def Note.delayed (d : ℝ) (n : Note ℝ) : Note ℝ := { n with start := n.start + d }

/-- **The time at which a voice is over**: the end of its last note, and zero without notes. -/
noncomputable def Track.finish (notes : Track ℝ) : ℝ := notes.getLast?.elim 0 Note.finish

/-! ### Tokens at a later time -/

namespace Sequencer

/-- **The time of a state** is when the last note is over. -/
theorem Course.time_eq {α : Type} [Scalar α] {mode : ErrorMode} {s last : Sequencer α} {ts : List Token}
    {notes : List (Note α)} (h : Course mode s ts last notes) :
    last.time = notes.getLast?.elim s.time Note.finish := by
  induction h with
  | nil => rfl
  | @step s after last t n ts notes hstep _ ih =>
    cases step_cases hstep with
    | octave | tempo | length | volume | up | down | tie => exact ih
    | @note f m hf hm =>
      rw [ih, Option.toList_some, List.singleton_append, List.getLast?_cons]
      cases notes.getLast? <;> rfl
  | skip _ _ _ ih => exact ih

variable {s after last : Sequencer ℝ} {t : Token} {ts : List Token} {n : Option (Note ℝ)}
  {notes : List (Note ℝ)}

/-- A state some time later. -/
noncomputable def delayed (s : Sequencer ℝ) (d : ℝ) : Sequencer ℝ := { s with time := s.time + d }

/-- **A token some time later** in exact arithmetic. -/
theorem step_delayed (h : s.step t = .ok (after, n)) (d : ℝ) :
    (s.delayed d).step t = .ok (after.delayed d, n.map (Note.delayed d)) := by
  cases step_cases h with
  | octave hc hv => exact (Acts.octave hc hv).step_eq
  | tempo hc hv h0 => exact (Acts.tempo hc hv h0).step_eq
  | length hc hv h0 => exact (Acts.length hc hv h0).step_eq
  | volume hc hv => exact (Acts.volume hc hv).step_eq
  | up hc => exact (Acts.up hc).step_eq
  | down hc => exact (Acts.down hc).step_eq
  | tie hc => exact (Acts.tie hc).step_eq
  | @note f m hf hm =>
    have hdivisor : s.divisor t ≠ 0 := divisor_ne_zero_of_note hm
    have hdivisor' : (s.delayed d).divisor t ≠ 0 := hdivisor
    have hlater : (s.delayed d).note t f = .ok (m.delayed d) := by
      rw [note_exact hdivisor] at hm
      cases hm
      rw [note_exact hdivisor']
      rfl
    have hfinish : (m.delayed d).finish = m.finish + d := add_right_comm m.start d m.duration
    rw [(Acts.note hf hlater).step_eq, hfinish]
    rfl

/-- **Tokens some time later** in exact arithmetic. -/
theorem Course.delayed (h : Course .strict s ts last notes) (d : ℝ) :
    Course .strict (s.delayed d) ts (last.delayed d) (notes.map (Note.delayed d)) :=
  h.carried (fun s => s.delayed d) _ fun _ _ _ _ _ hstep => step_delayed hstep d

end Sequencer

/-! ### A voice after another one -/

namespace Track

open Sequencer

/-- **The settings that every voice begins with.** -/
def resetText : List Char := " o4t80l4v120 ".toList

def resetRow : List Segment :=
  [.blank ' ', .word ⟨['o'], ['4'], false⟩, .word ⟨['t'], ['8', '0'], false⟩, .word ⟨['l'], ['4'], false⟩,
    .word ⟨['v'], ['1', '2', '0'], false⟩, .blank ' ']

theorem legible_reset : Legible resetRow resetText := by
  refine ⟨⟨by decide, ?_⟩, by decide⟩
  simp only [resetRow, List.forall_mem_cons, List.not_mem_nil, false_implies, implies_true, and_true]
  refine ⟨(by decide : isBlank ' ' = true), ?_, ?_, ?_, ?_, (by decide : isBlank ' ' = true)⟩
  · exact ⟨.setting (by decide) (by decide), List.all_eq_true.1 (by decide)⟩
  · exact ⟨.positive (by decide) (by decide) (by decide), List.all_eq_true.1 (by decide)⟩
  · exact ⟨.positive (by decide) (by decide) (by decide), List.all_eq_true.1 (by decide)⟩
  · exact ⟨.setting (by decide) (by decide), List.all_eq_true.1 (by decide)⟩

/-- **The settings lead from every state to that of a new voice**, but for the time. -/
theorem gives_reset (s : Sequencer ℝ) : Gives s resetRow (start.delayed s.time) [] := by
  have hstart : (start : Sequencer ℝ).delayed s.time = ⟨4, 80, 4, 120, s.time⟩ := by
    simp [Sequencer.delayed, start]
  rw [hstart]
  refine .step (Acts.octave rfl (by decide : _ = some 4)).step_eq ?_
  refine .step (Acts.tempo rfl (by decide : _ = some 80) (by decide)).step_eq ?_
  refine .step (Acts.length rfl (by decide : _ = some 4) (by decide)).step_eq ?_
  exact .step (Acts.volume rfl (by decide : _ = some 120)).step_eq .nil

/-- **A voice after another one**, in exact arithmetic: with the settings of a new voice before it, it gives
its own notes, later. -/
theorem read_reset {policy : ErrorPolicy} {track : Option ℤ} {u w : List Char} {first second : Track ℝ}
    (hmode : policy.mode = .strict) (hu : (read policy track u).result = .ok first)
    (hw : (read policy track w).result = .ok second) :
    (read policy track (u ++ (resetText ++ w))).result =
      .ok (first ++ second.map (Note.delayed (finish first))) := by
  obtain ⟨left, hleft, mid, hfirst⟩ := (read_eq_ok_iff hmode).1 hu
  obtain ⟨right, hright, last, hsecond⟩ := (read_eq_ok_iff hmode).1 hw
  have htime : mid.time = finish first := by
    rw [Course.time_eq hfirst, show (start : Sequencer ℝ).time = 0 from Exact.zero_lit, finish]
  have hlater : Gives (start.delayed mid.time) right (last.delayed mid.time)
      (second.map (Note.delayed mid.time)) := Course.delayed hsecond mid.time
  rw [← htime]
  exact (read_eq_ok_iff hmode).2 ⟨left ++ (resetRow ++ right),
    hleft.append (legible_reset.append hright), last.delayed mid.time,
    hfirst.append ((gives_reset mid).append hlater)⟩

end Track

/-! ### Texts in lower case -/

namespace Text

/-- A character that lower case leaves alone, wherever it stands. -/
def IsLower (c : Char) : Prop := c ≠ 'Σ' ∧ c ≠ 'İ' ∧ lowerChar c = c

/-- **A text is in lower case** if all its characters are. -/
theorem toLowerFrom_eq_self_iff {before cs : List Char} :
    toLowerFrom before cs = cs ↔ ∀ c ∈ cs, IsLower c := by
  induction cs generalizing before with
  | nil => simp [toLowerFrom]
  | cons c rest ih =>
    rw [List.forall_mem_cons, ← @ih (c :: before), toLowerFrom]
    by_cases hsigma : c = 'Σ'
    · subst hsigma
      rw [if_pos rfl]
      constructor
      · intro h
        have hhead := (List.cons.inj h).1
        split at hhead <;> exact absurd hhead (by decide)
      · exact fun h => absurd rfl h.1.1
    · by_cases hdot : c = 'İ'
      · subst hdot
        rw [if_neg hsigma, if_pos rfl]
        constructor
        · exact fun h => absurd (List.cons.inj h).1 (by decide)
        · exact fun h => absurd rfl h.1.2.1
      · rw [if_neg hsigma, if_neg hdot, List.singleton_append, List.cons_eq_cons, IsLower]
        simp [hsigma, hdot]

theorem toLower_eq_self_iff {cs : List Char} : toLower cs = cs ↔ ∀ c ∈ cs, IsLower c :=
  toLowerFrom_eq_self_iff

end Text

/-! ### Voices side by side -/

namespace Score

/-- A property of all characters of joined texts. -/
theorem forall_mem_intercalate {P : Char → Prop} {sep : List Char} {parts : List (List Char)}
    (hsep : ∀ c ∈ sep, P c) (h : ∀ part ∈ parts, ∀ c ∈ part, P c) : ∀ c ∈ sep.intercalate parts, P c := by
  induction parts with
  | nil => exact fun c hc => absurd hc List.not_mem_nil
  | cons part rest ih =>
    obtain ⟨hpart, hrest⟩ := List.forall_mem_cons.1 h
    cases rest with
    | nil => simpa using hpart
    | cons next rest =>
      rw [List.intercalate_cons_cons, List.forall_mem_append, List.forall_mem_append]
      exact ⟨⟨hpart, hsep⟩, ih hrest⟩

theorem splitAtCommas_eq (cs : List Char) : splitAtCommas cs = cs.splitOn ',' := by
  induction cs with
  | nil => rfl
  | cons c rest ih =>
    rw [splitAtCommas, List.splitOn_cons_eq_if_modifyHead, ih]
    by_cases hc : c = ','
    · simp [hc]
    · rw [if_neg hc, if_neg (by simpa using hc)]
      obtain ⟨part, parts, hparts⟩ := List.exists_cons_of_ne_nil (List.splitOn_ne_nil ',' rest)
      rw [hparts]
      rfl

/-- **A voice as it stands in a score**: it is in lower case, with sharps as `+`, has no commas, and is not
blank. -/
structure IsVoice (voice : List Char) : Prop where
  lower : toLower voice = voice
  sharp : '#' ∉ voice
  comma : ',' ∉ voice
  not_blank : voice.all isBlank = false

variable {vs : List (List Char)}

/-- **The voices of a text that joins them by commas.** -/
theorem voices_intercalate (hne : vs ≠ []) (hvs : ∀ v ∈ vs, IsVoice v) :
    voices (",".intercalate (vs.map .ofList)) = vs := by
  have htext : (",".intercalate (vs.map .ofList)).toList = [','].intercalate vs := by
    rw [String.toList_intercalate, List.map_map]
    simp
  have hsharp : ([','].intercalate vs).map (fun c => if c = '#' then '+' else c) = [','].intercalate vs := by
    have hother : ∀ c ∈ [','].intercalate vs, c ≠ '#' := by
      refine forall_mem_intercalate (by simp) fun v hv c hc => ?_
      rintro rfl
      exact (hvs v hv).sharp hc
    refine (List.map_congr_left fun c hc => ?_).trans (List.map_id _)
    rw [if_neg (hother c hc), id]
  have hlower : toLower ([','].intercalate vs) = [','].intercalate vs := by
    have hcomma : ∀ c ∈ [','], IsLower c := toLower_eq_self_iff.1 (by decide)
    exact toLower_eq_self_iff.2 (forall_mem_intercalate hcomma fun v hv =>
      toLower_eq_self_iff.1 (hvs v hv).lower)
  rw [voices, htext, hsharp, hlower, splitAtCommas_eq]
  exact List.splitOn_intercalate _ (fun v hv => (hvs v hv).comma) hne

variable {α : Type} [Scalar α] {policy : ErrorPolicy}

/-- **Voices that are not blank are read one by one**, each under its number. -/
theorem readVoices_eq_mapM (hvs : ∀ v ∈ vs, v.all isBlank = false) (track : ℕ) :
    (readVoices policy track vs : Run α (List (Track α))) =
      (vs.zipIdx track).mapM fun (v, i) => Track.read policy (some ↑i) v := by
  induction vs generalizing track with
  | nil => rfl
  | cons v vs ih =>
    obtain ⟨hv, hvs⟩ := List.forall_mem_cons.1 hvs
    rw [readVoices, if_neg (by simp [hv]), ih hvs, List.zipIdx_cons, List.mapM_cons]

/-- The number of a voice has no say in its notes. -/
theorem result_read_track {v : List Char} {notes : Track α} {track track' : Option ℤ}
    (h : (Track.read policy track v).result = .ok notes) :
    (Track.read policy track' v).result = .ok notes :=
  Track.read_eq_ok_iff_course.2 (Track.read_eq_ok_iff_course.1 h)

/-- **The tracks of voices** are what each of them gives. -/
theorem result_readVoices_iff (hvs : ∀ v ∈ vs, v.all isBlank = false) {first : ℕ} (track : Option ℤ)
    {tracks : List (Track α)} : (readVoices policy first vs).result = .ok tracks ↔
      List.Forall₂ (fun v notes => (Track.read policy track v).result = .ok notes) vs tracks := by
  induction vs generalizing first tracks with
  | nil =>
    rw [List.forall₂_nil_left_iff, readVoices]
    exact ⟨fun h => (Except.ok.inj h).symm, fun h => h ▸ rfl⟩
  | cons v vs ih =>
    obtain ⟨hv, hvs⟩ := List.forall_mem_cons.1 hvs
    rw [readVoices, if_neg (by simp [hv])]
    constructor
    · intro h
      obtain ⟨notes, hnotes, h⟩ := Run.exists_of_bind_ok h
      obtain ⟨later, hlater, h⟩ := Run.exists_of_bind_ok h
      cases h
      exact .cons (result_read_track hnotes) ((ih hvs).1 hlater)
    · rintro (_ | ⟨hnotes, hlater⟩)
      rw [Run.result_bind, result_read_track hnotes]
      show ((readVoices policy (first + 1) vs >>= fun later => pure (_ :: later)) : Run α _).result = _
      rw [Run.result_bind, (ih hvs).2 hlater]
      rfl

/-- **Voices compose in sequence and side by side.** In exact arithmetic, a voice that is written after
another one, with the settings of a new voice between them, gives the notes that it gives by itself, later by
the time at which the first one is over. And voices that a text joins by commas are read one by one, so that
their tracks are what they give by themselves. -/
theorem voices_compose :
    (∀ (policy : ErrorPolicy) track (u w : List Char) (first second : Track α), policy.mode = .strict →
      (Track.read policy track u).result = .ok first → (Track.read policy track w).result = .ok second →
      ∃ before after : Track ℝ, (Track.read policy track u).result = .ok before ∧
        (Track.read policy track w).result = .ok after ∧
        (Track.read policy track (u ++ (Track.resetText ++ w))).result =
          .ok (before ++ after.map (Note.delayed (Track.finish before)))) ∧
    ∀ (policy : ErrorPolicy) vs, vs ≠ [] → (∀ v ∈ vs, IsVoice v) →
      (read policy (",".intercalate (vs.map .ofList)) : Run α (List (Track α))) =
        vs.zipIdx.mapM (fun (v, i) => Track.read policy (some ↑i) v) ∧
      ∀ track (tracks : List (Track α)),
        (read policy (",".intercalate (vs.map .ofList))).result = .ok tracks ↔
          List.Forall₂ (fun v notes => (Track.read policy track v).result = .ok notes) vs tracks := by
  constructor
  · intro policy track u w first second hmode hu hw
    obtain ⟨before, hbefore⟩ := Track.exists_read_exact hmode hu
    obtain ⟨after, hafter⟩ := Track.exists_read_exact hmode hw
    exact ⟨before, after, hbefore, hafter, Track.read_reset hmode hbefore hafter⟩
  · intro policy vs hne hvs
    have hblank : ∀ v ∈ vs, v.all isBlank = false := fun v hv => (hvs v hv).not_blank
    rw [read, voices_intercalate hne hvs]
    exact ⟨readVoices_eq_mapM hblank 0, fun track tracks => result_readVoices_iff hblank track⟩

/-- A voice that ends an octave higher, before another one and beside it. -/
theorem voices_compose_octave_up :
    (∃ before after : Track ℝ, (Track.read ⟨.strict, none⟩ none ['c', '8', '>']).result = .ok before ∧
      (Track.read ⟨.strict, none⟩ none ['d']).result = .ok after ∧
      (Track.read ⟨.strict, none⟩ none "c8> o4t80l4v120 d".toList).result =
        .ok (before ++ after.map (Note.delayed (Track.finish before)))) ∧
    ∃ tracks : List (Track Float), (read ⟨.strict, none⟩ "c8>,d").result = .ok tracks ∧
      List.Forall₂ (fun v notes => (Track.read ⟨.strict, none⟩ none v).result = .ok notes)
        [['c', '8', '>'], ['d']] tracks := by
  obtain ⟨first, hfirst⟩ : ∃ notes : Track Float,
      (Track.read ⟨.strict, none⟩ none ['c', '8', '>']).result = .ok notes :=
    Run.exists_of_isOk (by decide +kernel)
  obtain ⟨second, hsecond⟩ : ∃ notes : Track Float,
      (Track.read ⟨.strict, none⟩ none ['d']).result = .ok notes := Run.exists_of_isOk (by decide +kernel)
  obtain ⟨tracks, htracks⟩ : ∃ tracks : List (Track Float),
      (read ⟨.strict, none⟩ "c8>,d").result = .ok tracks := Run.exists_of_isOk (by decide +kernel)
  have hvs : ∀ v ∈ [['c', '8', '>'], ['d']], IsVoice v := by
    simp only [List.forall_mem_cons, List.not_mem_nil, false_implies, implies_true, and_true]
    exact ⟨⟨by decide, by decide, by decide, by decide⟩, ⟨by decide, by decide, by decide, by decide⟩⟩
  obtain ⟨hsequence, hapart⟩ := voices_compose (α := Float)
  exact ⟨hsequence _ none _ _ _ _ rfl hfirst hsecond,
    tracks, htracks, ((hapart _ _ (by simp) hvs).2 none tracks).1 htracks⟩

end Score

end Polyphony
