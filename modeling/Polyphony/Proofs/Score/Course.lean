import Mathlib
import Polyphony.Proofs.Exact
import Polyphony.Proofs.Run
import Polyphony.Proofs.Score.Modes

/-!
# The course of a voice

* `Sequencer.Course`: the state that tokens lead to and the notes that they give, in either mode. A
  flawed token ends the course in strict mode and is passed over in lenient mode.
* `Sequencer.Stops`: the token at which a reading ends early, and why.
* `Track.result_play_of_course`, `Track.result_play_of_stops`: a reading gives the notes of its course,
  or the fault of the token at which it stops; one of the two happens (`course_or_stops`).
* `Sequencer.course_well_formed`: in exact arithmetic, **every state on the way and every note is well
  formed, and the notes follow each other without a gap**.
-/

namespace Polyphony

open Scalar

variable {α : Type} [Scalar α]

namespace Sequencer

/-- **The course of a voice**: from a state, over tokens, to a state, with the notes on the way. -/
inductive Course (mode : ErrorMode) : Sequencer α → List Token → Sequencer α → List (Note α) → Prop
  | nil {s : Sequencer α} : Course mode s [] s []
  | step {s after last : Sequencer α} {t : Token} {n : Option (Note α)} {ts : List Token}
      {notes : List (Note α)} :
      s.step t = .ok (after, n) → Course mode after ts last notes →
      Course mode s (t :: ts) last (n.toList ++ notes)
  | skip {s last : Sequencer α} {t : Token} {flaw : ScoreFlaw} {ts : List Token}
      {notes : List (Note α)} :
      mode = .lenient → s.step t = .error (.flaw flaw) → Course mode s ts last notes →
      Course mode s (t :: ts) last notes

/-- **A reading that ends early**: it has its course up to a token that is refused. Flaws are such
refusals in strict mode only. -/
inductive Stops (mode : ErrorMode) (s : Sequencer α) : List Token → Token → Refusal → Prop
  | intro {before after : List Token} {t : Token} {last : Sequencer α} {notes : List (Note α)}
      {refusal : Refusal} :
      Course mode s before last notes → last.step t = .error refusal →
      (∀ flaw, refusal = .flaw flaw → mode = .strict) → Stops mode s (before ++ t :: after) t refusal

variable {mode : ErrorMode} {s after last : Sequencer α} {t : Token} {ts : List Token}
  {n : Option (Note α)} {notes : List (Note α)} {refusal : Refusal}

theorem Course.ready (h : Course mode s ts last notes) (hs : s.Ready) : last.Ready := by
  induction h with
  | nil => exact hs
  | step hstep _ ih => exact ih (hs.step hstep)
  | skip _ _ _ ih => exact ih hs

theorem Stops.of_step (hstep : s.step t = .ok (after, n)) {u : Token}
    (h : Stops mode after ts u refusal) : Stops mode s (t :: ts) u refusal := by
  obtain ⟨hcourse, hrefused, hstrict⟩ := h
  exact .intro (.step hstep hcourse) hrefused hstrict

theorem Stops.of_skip (hmode : mode = .lenient) {flaw : ScoreFlaw}
    (hstep : s.step t = .error (.flaw flaw)) {u : Token} (h : Stops mode s ts u refusal) :
    Stops mode s (t :: ts) u refusal := by
  obtain ⟨hcourse, hrefused, hstrict⟩ := h
  exact .intro (.skip hmode hstep hcourse) hrefused hstrict

/-- **Tokens have their course, or the reading stops at one of them.** -/
theorem course_or_stops (mode : ErrorMode) (s : Sequencer α) (ts : List Token) :
    (∃ last notes, Course mode s ts last notes) ∨ ∃ t refusal, Stops mode s ts t refusal := by
  induction ts generalizing s with
  | nil => exact .inl ⟨s, [], .nil⟩
  | cons t ts ih =>
    have hstop : ∀ {refusal}, s.step t = .error refusal →
        (∀ flaw, refusal = .flaw flaw → mode = .strict) → Stops mode s (t :: ts) t refusal :=
      fun hrefused hstrict => show Stops mode s ([] ++ t :: ts) t _ from .intro .nil hrefused hstrict
    rcases hstep : s.step t with (flaw | fault) | ⟨after, n⟩
    · -- a flaw: the end in strict mode, and no step in lenient mode
      cases hmode : mode with
      | strict => exact .inr ⟨t, _, hmode ▸ hstop hstep fun _ _ => hmode⟩
      | lenient =>
        rcases ih s with ⟨last, notes, hcourse⟩ | ⟨u, refusal, hstops⟩
        · exact .inl ⟨last, notes, .skip rfl hstep (hmode ▸ hcourse)⟩
        · exact .inr ⟨u, refusal, .of_skip rfl hstep (hmode ▸ hstops)⟩
    · exact .inr ⟨t, _, hstop hstep fun _ h => by cases h⟩
    · rcases ih after with ⟨last, notes, hcourse⟩ | ⟨u, refusal, hstops⟩
      · exact .inl ⟨last, _, .step hstep hcourse⟩
      · exact .inr ⟨u, refusal, .of_step hstep hstops⟩

/-- In strict mode no token of a course is flawed. -/
theorem Course.flaw?_eq_none (h : Course .strict s ts last notes) (hs : s.Ready) :
    ∀ t ∈ ts, t.flaw? = none := by
  induction h with
  | nil => exact fun t ht => absurd ht List.not_mem_nil
  | step hstep _ ih =>
    exact List.forall_mem_cons.2 ⟨flaw?_of_step_ok hs.length_pos hstep, ih (hs.step hstep)⟩
  | skip hlenient => cases hlenient

/-- A flaw at which a reading stops is one of a token. -/
theorem Stops.flaw {flaw : ScoreFlaw} (h : Stops mode s ts t (.flaw flaw)) (hs : s.Ready) :
    mode = .strict ∧ t ∈ ts ∧ t.flaw? = some flaw := by
  obtain ⟨hcourse, hrefused, hstrict⟩ := h
  exact ⟨hstrict flaw rfl, by simp, (step_flaw_iff (hcourse.ready hs).length_pos).1 hrefused⟩

/-- A number at which a reading stops has left the range at a token, in the state before it. -/
theorem Stops.number {fault : NumberFault} (h : Stops mode s ts t (.number fault)) :
    ∃ before after last notes, ts = before ++ t :: after ∧ Course mode s before last notes ∧
      last.step t = .error (.number fault) := by
  obtain ⟨hcourse, hrefused, -⟩ := h
  exact ⟨_, _, _, _, rfl, hcourse, hrefused⟩

end Sequencer

/-! ### What a reading gives -/

namespace Track

open Sequencer

variable {policy : ErrorPolicy} {track : Option ℤ} {s last : Sequencer α} {t : Token}
  {ts : List Token} {notes : List (Note α)} {refusal : Refusal}

/-- The fault of a token that is refused. -/
def refusedAt (track : Option ℤ) (t : Token) : Refusal → Fault α
  | .flaw flaw => flawAt track t flaw
  | .number fault => .number fault

theorem result_play_step {after : Sequencer α} {n : Option (Note α)} (h : s.step t = .ok (after, n)) :
    (play policy track s (t :: ts)).result =
      (play policy track after ts).result.map (n.toList ++ ·) := by
  cases n with
  | none =>
    simp only [play, perform_of_ok h, Option.toList_none, List.nil_append]
    cases (play policy track after ts).result <;> rfl
  | some n =>
    simp only [play, perform_of_ok h, Run.result_bind]
    cases (play policy track after ts).result <;> rfl

theorem result_play_flaw {flaw : ScoreFlaw} (h : s.step t = .error (.flaw flaw))
    (hmode : policy.mode = .lenient) :
    (play policy track s (t :: ts)).result = (play policy track s ts).result := by
  rw [play_flawed hmode track h ts]

/-- **A voice that has its course gives the notes of it.** -/
theorem result_play_of_course (h : Course policy.mode s ts last notes) :
    (play policy track s ts).result = .ok notes := by
  induction h with
  | nil => rfl
  | step hstep _ ih =>
    rw [result_play_step hstep, ih]
    rfl
  | skip hlenient hstep _ ih => rw [result_play_flaw hstep hlenient, ih]

/-- The reading goes on to where it stops. -/
theorem result_play_append {rest : List Token} (h : Course policy.mode s ts last notes) :
    (play policy track s (ts ++ rest)).result =
      (play policy track last rest).result.map (notes ++ ·) := by
  induction h with
  | @nil s =>
    rw [List.nil_append]
    cases (play policy track s rest).result <;> rfl
  | @step _ _ last _ _ _ _ hstep _ ih =>
    rw [List.cons_append, result_play_step hstep, ih]
    cases (play policy track last rest).result with
    | error fault => rfl
    | ok later => exact congrArg Except.ok (List.append_assoc _ _ _).symm
  | skip hlenient hstep _ ih =>
    rw [List.cons_append, result_play_flaw hstep hlenient, ih]

/-- **A voice that stops gives the fault of the token that it stops at.** -/
theorem result_play_of_stops (h : Stops policy.mode s ts t refusal) :
    (play policy track s ts).result = .error (refusedAt track t refusal) := by
  obtain ⟨hcourse, hrefused, hstrict⟩ := h
  -- up to the token the reading follows its course, and then it fails whatever comes after
  rw [result_play_append hcourse]
  cases refusal with
  | flaw flaw =>
    simp only [play, perform_of_error hrefused, excuse_strict (hstrict flaw rfl), Run.result_bind]
    rfl
  | number fault =>
    simp only [play, perform_of_error hrefused]
    rfl

end Track

/-! ### Notes and their frequencies -/

/-- The frequency of a name is one of the table. -/
theorem Pitch.mem_table_of_frequency? {name : List Char} {f : α} (h : Pitch.frequency? name = some f) :
    (name, f) ∈ Pitch.table := by
  rw [Pitch.frequency?, List.lookup_eq_some_iff] at h
  obtain ⟨before, after, htable, -⟩ := h
  rw [htable]
  exact List.mem_append_right before List.mem_cons_self

namespace Sequencer

/-- The number by which a token divides a whole note. -/
def divisor (s : Sequencer α) (t : Token) : ℕ := t.value?.getD s.length

section Note

variable {s : Sequencer α} {t : Token} {f : α}

omit [Scalar α] in
theorem Ready.divisor_ne_zero (hs : s.Ready) (h : t.value? ≠ some 0) : s.divisor t ≠ 0 := by
  unfold divisor
  cases hv : t.value? with
  | none => exact hs.length_pos.ne'
  | some v =>
    rintro rfl
    exact h hv

theorem note_of_divisor_eq_zero (h : s.divisor t = 0) :
    s.note t f = .error (.flaw .noteLengthNotPositive) := by
  unfold note
  rw [show t.value?.getD s.length = s.divisor t from rfl, if_pos h]
  rfl

/-- A note is divided by a number other than zero. -/
theorem divisor_ne_zero_of_note {m : Note α} (h : s.note t f = .ok m) : s.divisor t ≠ 0 := by
  intro hzero
  rw [note_of_divisor_eq_zero hzero] at h
  cases h

/-- **The note of a token**, whose numbers are converted one after the other. -/
theorem note_of_divisor_ne_zero (h : s.divisor t ≠ 0) : s.note t f = (do
    let tempo ← number (ofInt? s.tempo)
    let divisor ← number (ofInt? (s.divisor t))
    let frequency ← number (Pitch.onOctave? f s.octave)
    let volume ← number (ofInt? s.volume)
    let plain := 320.0 / tempo / divisor
    return ⟨s.time, if t.dotted then plain * 1.5 else plain, frequency, volume / 200.0,
      Pitch.isRest t.command⟩) := by
  unfold note
  rw [show t.value?.getD s.length = s.divisor t from rfl, if_neg h]

end Note

/-- **A token that names a note** is refused if its note is, and for no other reason. -/
theorem step_of_frequency? {s : Sequencer α} {t : Token} {f : α}
    (h : Pitch.frequency? t.command = some f) :
    s.step t = (s.note t f).map fun n => ({ s with time := n.finish }, some n) := by
  have hname := Pitch.mem_names_of_frequency? h
  rw [step_eq_checkedStep]
  unfold checkedStep
  split
  case h_9 =>
    rw [h]
    dsimp only
    cases s.note t f <;> rfl
  all_goals
    -- the other commands name no note
    rename_i hc
    rw [hc] at hname
    exact absurd hname (by decide)

/-- Only notes are refused because of their numbers. -/
theorem exists_note_of_step_number {s : Sequencer α} {t : Token} {fault : NumberFault}
    (h : s.step t = .error (.number fault)) :
    ∃ f, Pitch.frequency? t.command = some f ∧ s.note t f = .error (.number fault) := by
  cases hf : (Pitch.frequency? t.command : Option α) with
  | some f =>
    refine ⟨f, rfl, ?_⟩
    rw [step_of_frequency? hf] at h
    cases hnote : s.note t f with
    | ok n =>
      rw [hnote] at h
      cases h
    | error refusal =>
      rw [hnote] at h
      cases h
      rfl
  | none =>
    -- no other command converts a number
    rw [step_eq_checkedStep] at h
    unfold checkedStep setting positiveSetting setting at h
    split at h
    case h_9 =>
      rw [hf] at h
      cases h
    case h_1 | h_4 => cases hv : t.value? <;> rw [hv] at h <;> cases h
    case h_2 | h_3 =>
      rcases hv : t.value? with - | v
      · rw [hv] at h
        cases h
      · rw [hv] at h
        by_cases h0 : v = 0 <;> simp [h0, bind, Except.bind, pure, Except.pure, throw, throwThe,
          MonadExceptOf.throw] at h
    case h_5 | h_6 | h_7 | h_8 => cases h

end Sequencer

/-! ### Exact arithmetic -/

/-- **A note** in exact arithmetic: it lasts eight minutes at most, and the rests are the notes of
frequency zero. -/
structure Note.WellFormed (n : Note ℝ) : Prop where
  duration_pos : 0 < n.duration
  duration_le : n.duration ≤ 480
  frequency_nonneg : 0 ≤ n.frequency
  rest_iff : n.rest = true ↔ n.frequency = 0
  volume_nonneg : 0 ≤ n.volume

namespace Sequencer

/-- **A state of a voice** in exact arithmetic. -/
structure WellFormed (s : Sequencer ℝ) : Prop where
  one_le_tempo : 1 ≤ s.tempo
  one_le_length : 1 ≤ s.length
  volume_nonneg : 0 ≤ s.volume
  time_nonneg : 0 ≤ s.time

variable {mode : ErrorMode} {s after last : Sequencer ℝ} {t : Token} {ts : List Token}
  {n : Option (Note ℝ)} {m : Note ℝ} {notes : List (Note ℝ)} {f : ℝ}

theorem wellFormed_start : (start : Sequencer ℝ).WellFormed := by
  refine ⟨by decide, by decide, Nat.zero_le _, ?_⟩
  show (0 : ℝ) ≤ 0.0
  rw [Exact.zero_lit]

/-- No frequency of the table is negative, and those of rests are the ones that are zero. -/
theorem frequency?_exact {name : List Char} (h : Pitch.frequency? name = some f) :
    0 ≤ f ∧ (Pitch.isRest name = true ↔ f = 0) := by
  have hall : ∀ entry ∈ (Pitch.table : List (List Char × ℝ)),
      0 ≤ entry.2 ∧ (Pitch.isRest entry.1 = true ↔ entry.2 = 0) := by
    simp only [Pitch.table, List.forall_mem_cons, Pitch.isRest, Pitch.restNames]
    norm_num
    decide
  exact hall _ (Pitch.mem_table_of_frequency? h)

/-- How long a token lasts. -/
noncomputable def seconds (s : Sequencer ℝ) (t : Token) : ℝ :=
  320 / s.tempo / s.divisor t * if t.dotted then 3 / 2 else 1

/-- **The note of a token** in exact arithmetic, where no number leaves the range. -/
theorem note_exact (h : s.divisor t ≠ 0) : s.note t f = .ok
    ⟨s.time, s.seconds t, f * 2 ^ (s.octave - 4), s.volume / 200, Pitch.isRest t.command⟩ := by
  have hnote : s.note t f = .ok ⟨s.time,
      if t.dotted then 320.0 / (s.tempo : ℤ) / (s.divisor t : ℤ) * 1.5
        else 320.0 / (s.tempo : ℤ) / (s.divisor t : ℤ),
      f * 2 ^ (s.octave - 4), (s.volume : ℤ) / 200.0, Pitch.isRest t.command⟩ := by
    rw [note_of_divisor_ne_zero h]
    rfl
  rw [hnote, seconds]
  cases t.dotted <;> norm_num

theorem seconds_pos (hs : s.WellFormed) (h : s.divisor t ≠ 0) : 0 < s.seconds t := by
  have htempo : (0 : ℝ) < s.tempo := by exact_mod_cast hs.one_le_tempo
  have hdivisor : (0 : ℝ) < s.divisor t := by exact_mod_cast Nat.pos_of_ne_zero h
  unfold seconds
  split <;> positivity

theorem seconds_le (hs : s.WellFormed) (h : s.divisor t ≠ 0) : s.seconds t ≤ 480 := by
  have htempo : (1 : ℝ) ≤ s.tempo := by exact_mod_cast hs.one_le_tempo
  have hdivisor : (1 : ℝ) ≤ s.divisor t := by exact_mod_cast Nat.pos_of_ne_zero h
  have hwhole : (320 : ℝ) / s.tempo ≤ 320 := div_le_self (by norm_num) htempo
  have hplain : (320 : ℝ) / s.tempo / s.divisor t ≤ 320 :=
    (div_le_self (by positivity) hdivisor).trans hwhole
  unfold seconds
  split <;> linarith

/-- **A note that is given is well formed**, and it begins where the state is in time. -/
theorem WellFormed.note (hs : s.WellFormed) (hf : Pitch.frequency? t.command = some f)
    (h : s.note t f = .ok m) : m.WellFormed ∧ m.start = s.time := by
  have hdivisor := divisor_ne_zero_of_note h
  rw [note_exact hdivisor] at h
  cases h
  obtain ⟨hnonneg, hrest⟩ := frequency?_exact hf
  have hpower : (2 : ℝ) ^ (s.octave - 4) ≠ 0 := (zpow_pos (by norm_num) _).ne'
  refine ⟨⟨seconds_pos hs hdivisor, seconds_le hs hdivisor, ?_, ?_, ?_⟩, rfl⟩
  · exact mul_nonneg hnonneg (zpow_pos (by norm_num) _).le
  · rw [hrest, mul_eq_zero, or_iff_left hpower]
  · positivity

/-- **What a token does in exact arithmetic.** -/
theorem WellFormed.step (hs : s.WellFormed) (h : s.step t = .ok (after, n)) :
    after.WellFormed ∧ (∀ m ∈ n.toList, m.WellFormed ∧ m.start = s.time) ∧
      after.time = s.time + (n.toList.map Note.duration).sum := by
  cases step_cases h with
  | octave | up | down | tie =>
    exact ⟨⟨hs.one_le_tempo, hs.one_le_length, Nat.zero_le _, hs.time_nonneg⟩, by simp, by simp⟩
  | tempo _ _ h0 =>
    exact ⟨⟨Nat.pos_of_ne_zero h0, hs.one_le_length, Nat.zero_le _, hs.time_nonneg⟩, by simp, by simp⟩
  | length _ _ h0 =>
    exact ⟨⟨hs.one_le_tempo, Nat.pos_of_ne_zero h0, Nat.zero_le _, hs.time_nonneg⟩, by simp, by simp⟩
  | volume _ _ =>
    exact ⟨⟨hs.one_le_tempo, hs.one_le_length, Nat.zero_le _, hs.time_nonneg⟩, by simp, by simp⟩
  | @note f m hf hm =>
    obtain ⟨hwell, hstart⟩ := hs.note hf hm
    have hfinish : m.finish = s.time + m.duration := by rw [Note.finish, hstart]
    have hlater : 0 ≤ m.finish := by
      rw [hfinish]
      exact add_nonneg hs.time_nonneg hwell.duration_pos.le
    exact ⟨⟨hs.one_le_tempo, hs.one_le_length, Nat.zero_le _, hlater⟩, by simpa using ⟨hwell, hstart⟩,
      by simpa using hfinish⟩

/-- **Notes without a gap**: the first one begins at a time, each later one where the one before it is
over, and all of them together fill the time until another. -/
structure Consecutive (begin : ℝ) (notes : List (Note ℝ)) (finish : ℝ) : Prop where
  first : ∀ n ∈ notes.head?, n.start = begin
  chain : notes.IsChain fun n m => m.start = n.finish
  total : finish = begin + (notes.map Note.duration).sum

/-- **What tokens keep in exact arithmetic.** -/
theorem Course.wellFormed (h : Course mode s ts last notes) (hs : s.WellFormed) :
    last.WellFormed ∧ ∀ m ∈ notes, m.WellFormed := by
  induction h with
  | nil => exact ⟨hs, by simp⟩
  | step hstep _ ih =>
    obtain ⟨hafter, hn, -⟩ := hs.step hstep
    obtain ⟨hlast, hnotes⟩ := ih hafter
    refine ⟨hlast, fun m hm => ?_⟩
    rcases List.mem_append.1 hm with hm | hm
    · exact (hn m hm).1
    · exact hnotes m hm
  | skip _ _ _ ih => exact ih hs

/-- **The notes of a course leave no gap**, whatever is passed over. -/
theorem Course.consecutive (h : Course mode s ts last notes) (hs : s.WellFormed) :
    Consecutive s.time notes last.time := by
  -- the time of a state is where its next note begins, and a token that is skipped leaves it alone
  induction h with
  | nil => exact ⟨by simp, .nil, by simp⟩
  | @step s after last t n ts notes hstep _ ih =>
    obtain ⟨hafter, hn, htime⟩ := hs.step hstep
    obtain ⟨hfirst, hchain, htotal⟩ := ih hafter
    cases n with
    | none =>
      rw [Option.toList_none, List.map_nil, List.sum_nil, add_zero] at htime
      rw [htime] at hfirst htotal
      exact ⟨hfirst, hchain, htotal⟩
    | some m =>
      have hstart : m.start = s.time := (hn m (by simp)).2
      rw [Option.toList_some, List.map_singleton, List.sum_singleton] at htime
      have hfinish : m.finish = after.time := by rw [Note.finish, hstart, htime]
      refine ⟨?_, ?_, ?_⟩
      · intro m' hm'
        obtain rfl : m = m' := by simpa using hm'
        exact hstart
      · refine List.isChain_cons.2 ⟨fun m' hm' => ?_, hchain⟩
        rw [hfinish]
        exact hfirst m' hm'
      · rw [htotal, htime, Option.toList_some, List.singleton_append, List.map_cons, List.sum_cons,
          add_assoc]
  | skip _ _ _ ih => exact ih hs

/-- In exact arithmetic a token is refused for its flaws only. -/
theorem step_ne_number {fault : NumberFault} : s.step t ≠ .error (.number fault) := by
  intro h
  obtain ⟨f, -, hnote⟩ := exists_note_of_step_number h
  by_cases hdivisor : s.divisor t = 0
  · rw [note_of_divisor_eq_zero hdivisor] at hnote
    cases hnote
  · rw [note_exact hdivisor] at hnote
    cases hnote

theorem exists_course_iff (hs : s.Ready) :
    (∃ last notes, Course mode s ts last notes) ↔ (mode = .strict → ∀ t ∈ ts, t.flaw? = none) := by
  constructor
  · rintro ⟨last, notes, h⟩ rfl
    exact h.flaw?_eq_none hs
  · intro hsound
    rcases course_or_stops mode s ts with hcourse | ⟨t, refusal, hstops⟩
    · exact hcourse
    · cases refusal with
      | number fault =>
        obtain ⟨_, _, _, _, -, -, hnumber⟩ := hstops.number
        exact absurd hnumber step_ne_number
      | flaw flaw =>
        obtain ⟨hstrict, ht, hflaw⟩ := hstops.flaw hs
        rw [hsound hstrict t ht] at hflaw
        cases hflaw

/-- **Every state of a voice and every note is well formed**, in exact arithmetic and in either mode,
after any number of its tokens. There is such a state unless a token before it is flawed in strict
mode; nothing is divided by zero in it; and the notes so far follow each other from the start of the
voice to the time of the state, whatever has been passed over between them. -/
theorem course_well_formed (voice : List Char) (mode : ErrorMode) (k : ℕ) :
    ((∃ last notes, Course mode (start : Sequencer ℝ) ((Token.scan voice).take k) last notes) ↔
      (mode = .strict → ∀ t ∈ (Token.scan voice).take k, t.flaw? = none)) ∧
    ∀ last notes, Course mode (start : Sequencer ℝ) ((Token.scan voice).take k) last notes →
      (∀ (policy : ErrorPolicy) track, policy.mode = mode →
        (Track.play policy track start ((Token.scan voice).take k)).result = .ok notes) ∧
      last.WellFormed ∧
      (∀ t f m, last.note t f = .ok m → (last.tempo : ℝ) ≠ 0 ∧ (last.divisor t : ℝ) ≠ 0) ∧
      (∀ m ∈ notes, m.WellFormed) ∧ Consecutive 0 notes last.time := by
  refine ⟨exists_course_iff ready_start, fun last notes h => ?_⟩
  obtain ⟨hlast, hnotes⟩ := h.wellFormed wellFormed_start
  refine ⟨?_, hlast, ?_, hnotes, ?_⟩
  · rintro policy track rfl
    exact Track.result_play_of_course h
  · intro t f m hm
    have htempo := hlast.one_le_tempo
    have hdivisor := divisor_ne_zero_of_note hm
    exact ⟨by positivity, by exact_mod_cast hdivisor⟩
  · rw [← Exact.zero_lit]
    exact h.consecutive wellFormed_start

/-- A note, a token that is passed over, a change of octave, and a rest. -/
theorem course_well_formed_past_flaw : ∃ last notes,
    Course .lenient (start : Sequencer ℝ) ((Token.scan ['c', 'x', '<', 'r', '8', '.']).take 4) last
      notes ∧ last.WellFormed ∧ (∀ m ∈ notes, m.WellFormed) ∧ Consecutive 0 notes last.time := by
  obtain ⟨hexists, hall⟩ := course_well_formed ['c', 'x', '<', 'r', '8', '.'] .lenient 4
  obtain ⟨last, notes, h⟩ := hexists.2 fun hmode => by cases hmode
  obtain ⟨-, hlast, -, hnotes, hconsecutive⟩ := hall last notes h
  exact ⟨last, notes, h, hlast, hnotes, hconsecutive⟩

end Sequencer

end Polyphony
