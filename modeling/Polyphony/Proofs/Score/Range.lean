import Mathlib
import Polyphony.Proofs.Score.Grammar

/-!
# Numbers out of range

A reading can end although nothing is wrong with the score: a number of it has too many digits, or a
note needs a number that is no double.

* `Sequencer.overflow?`: what leaves the range in a note, which is read off the state and the token.
  `Sequencer.step_number_iff`: a token is refused because of its numbers exactly if something does.
* `Sequencer.Course.inRange`: tokens with modest numbers move the octave one step at a time.
* `Track.Escapes`: how a voice ends a reading beside its flaws. A voice with modest numbers does not
  (`Track.not_escapes_of_modest`).
* `Score.read_ends`: **a text is read unless a voice of it escapes** or, in strict mode, something is
  wrong with it, and it fails for no other reason.
-/

namespace Polyphony

open Binary64 Text

/-! ### Notes out of range -/

namespace Sequencer

variable {s : Sequencer Float} {t : Token} {f : Float} {fault : NumberFault}

/-- **What leaves the range in the note of a token**: the first number that is no double, in the order
in which they are needed. -/
def overflow? (s : Sequencer Float) (t : Token) : Option NumberFault :=
  if overflowThreshold ≤ s.tempo ∨ overflowThreshold ≤ s.divisor t ∨
      overflowThreshold ≤ (s.octave - Pitch.referenceOctave).natAbs then some .integerTooLarge
  else if 1024 ≤ s.octave - Pitch.referenceOctave then some .powerTooLarge
  else if overflowThreshold ≤ s.volume then some .integerTooLarge
  else none

theorem number_ofInt? (n : ℕ) : number (Scalar.ofInt? (α := Float) n) =
    if overflowThreshold ≤ n then .error (.number .integerTooLarge) else .ok (Float.ofInt n) := by
  show number (Binary64.ofInt? n) = _
  rw [Binary64.ofInt?, Int.natAbs_natCast]
  by_cases h : overflowThreshold ≤ n
  · rw [if_neg (Nat.not_lt.2 h), if_pos h]
    rfl
  · rw [if_pos (Nat.not_le.1 h), if_neg h]
    rfl

theorem number_onOctave? (octave : ℤ) : number (Pitch.onOctave? f octave) =
    if overflowThreshold ≤ (octave - Pitch.referenceOctave).natAbs then
      .error (.number .integerTooLarge)
    else if 1024 ≤ octave - Pitch.referenceOctave then .error (.number .powerTooLarge)
    else .ok (f * twoToThe (octave - Pitch.referenceOctave)) := by
  show number (Binary64.twoToThe? (octave - Pitch.referenceOctave) >>= fun power =>
    pure (f * power)) = _
  unfold Binary64.twoToThe?
  split_ifs <;> rfl

/-- **A note is refused because of its numbers** exactly if one of them leaves the range. -/
theorem note_number_iff (h : s.divisor t ≠ 0) :
    s.note t f = .error (.number fault) ↔ s.overflow? t = some fault := by
  rw [note_of_divisor_ne_zero h, overflow?]
  simp only [number_ofInt?, number_onOctave?]
  -- the first conversion that fails decides, so the cases come in the order of the conversions
  by_cases htempo : overflowThreshold ≤ s.tempo
  · simp [htempo, bind, Except.bind]
  by_cases hdivisor : overflowThreshold ≤ s.divisor t
  · simp [htempo, hdivisor, bind, Except.bind]
  by_cases hoctave : overflowThreshold ≤ (s.octave - Pitch.referenceOctave).natAbs
  · simp [htempo, hdivisor, hoctave, bind, Except.bind]
  by_cases hpower : 1024 ≤ s.octave - Pitch.referenceOctave
  · simp [htempo, hdivisor, hoctave, hpower, bind, Except.bind]
  by_cases hvolume : overflowThreshold ≤ s.volume <;>
    simp [htempo, hdivisor, hoctave, hpower, hvolume, bind, Except.bind, pure, Except.pure]

/-- **Which tokens are refused because of their numbers**: those that name a note, if a number of it
leaves the range. -/
theorem step_number_iff (hs : s.Ready) : s.step t = .error (.number fault) ↔
    t.command ∈ Pitch.names ∧ t.value? ≠ some 0 ∧ s.overflow? t = some fault := by
  constructor
  · intro h
    obtain ⟨f, hf, hnote⟩ := exists_note_of_step_number h
    have hzero : t.value? ≠ some 0 := by
      intro hzero
      rw [(note_flaw_iff hs.length_pos).2 ⟨hzero, rfl⟩] at hnote
      cases hnote
    exact ⟨Pitch.mem_names_of_frequency? hf, hzero,
      (note_number_iff (hs.divisor_ne_zero hzero)).1 hnote⟩
  · rintro ⟨hname, hzero, hover⟩
    obtain ⟨f, hf⟩ : ∃ f : Float, Pitch.frequency? t.command = some f := by
      cases hf : (Pitch.frequency? t.command : Option Float) with
      | none => exact absurd hname ((Pitch.frequency?_eq_none_iff _).1 hf)
      | some f => exact ⟨f, rfl⟩
    rw [step_of_frequency? hf, (note_number_iff (hs.divisor_ne_zero hzero)).2 hover]
    rfl

end Sequencer

/-! ### Voices -/

/-- **A token with modest numbers**: all of them are doubles, and no octave is set above `top`. -/
structure Token.Modest (top : ℕ) (t : Token) : Prop where
  value_lt : ∀ v ∈ t.value?, v < overflowThreshold
  octave_le : t.command = ['o'] → ∀ v ∈ t.value?, v ≤ top

instance (top : ℕ) (t : Token) : Decidable (t.Modest top) :=
  decidable_of_iff ((∀ v ∈ t.value?, v < overflowThreshold) ∧
    (t.command = ['o'] → ∀ v ∈ t.value?, v ≤ top))
    ⟨fun h => ⟨h.1, h.2⟩, fun h => ⟨h.value_lt, h.octave_le⟩⟩

namespace Sequencer

/-- **A state after `k` tokens with modest numbers.** Each of them moves the octave by one at most. -/
structure InRange (top k : ℕ) (s : Sequencer Float) : Prop where
  tempo_lt : s.tempo < overflowThreshold
  length_lt : s.length < overflowThreshold
  volume_lt : s.volume < overflowThreshold
  neg_le_octave : -(k : ℤ) ≤ s.octave
  octave_le : s.octave ≤ top + k

variable {mode : ErrorMode} {s after last : Sequencer Float} {t : Token} {ts : List Token}
  {n : Option (Note Float)} {notes : List (Note Float)} {top k : ℕ}

/-- The numbers in which a voice begins, and exponents of two, are far below the threshold. -/
theorem lt_overflowThreshold : 1100 < overflowThreshold := by decide +kernel

theorem inRange_start (h : 4 ≤ top) : (start : Sequencer Float).InRange top 0 := by
  have hlarge := lt_overflowThreshold
  constructor <;> simp only [start] <;> omega

theorem InRange.mono (hs : s.InRange top k) : s.InRange top (k + 1) := by
  obtain ⟨htempo, hlength, hvolume, hlow, hhigh⟩ := hs
  exact ⟨htempo, hlength, hvolume, by omega, by omega⟩

theorem InRange.step (hs : s.InRange top k) (ht : t.Modest top) (h : s.step t = .ok (after, n)) :
    after.InRange top (k + 1) := by
  -- what the token leaves alone is in range one step later too
  obtain ⟨htempo, hlength, hvolume, hlow, hhigh⟩ := hs.mono
  have hmoved := hs.neg_le_octave
  have hmoved' := hs.octave_le
  cases step_cases h with
  | octave hc hv =>
    have := ht.octave_le hc _ hv
    exact ⟨htempo, hlength, hvolume, by dsimp only; omega, by dsimp only; omega⟩
  | tempo _ hv => exact ⟨ht.value_lt _ hv, hlength, hvolume, hlow, hhigh⟩
  | length _ hv => exact ⟨htempo, ht.value_lt _ hv, hvolume, hlow, hhigh⟩
  | volume _ hv => exact ⟨htempo, hlength, ht.value_lt _ hv, hlow, hhigh⟩
  | up | down => exact ⟨htempo, hlength, hvolume, by dsimp only; omega, by dsimp only; omega⟩
  | tie | note => exact ⟨htempo, hlength, hvolume, hlow, hhigh⟩

/-- **What tokens with modest numbers lead to.** -/
theorem Course.inRange (h : Course mode s ts last notes) (hs : s.InRange top k)
    (hts : ∀ t ∈ ts, t.Modest top) : last.InRange top (k + ts.length) := by
  induction h generalizing k with
  | nil => exact hs
  | step hstep _ ih =>
    obtain ⟨ht, hts⟩ := List.forall_mem_cons.1 hts
    rw [List.length_cons, Nat.add_comm _ 1, ← Nat.add_assoc]
    exact ih (hs.step ht hstep) hts
  | skip _ _ _ ih =>
    rw [List.length_cons, Nat.add_comm _ 1, ← Nat.add_assoc]
    exact ih hs.mono (List.forall_mem_cons.1 hts).2

/-- **Nothing leaves the range** before the octaves are near the greatest exponent. -/
theorem InRange.overflow?_eq_none (hs : s.InRange top k) (ht : t.Modest top) (h : top + k < 1028) :
    s.overflow? t = none := by
  have hdivisor : s.divisor t < overflowThreshold := by
    unfold divisor
    cases hv : t.value? with
    | none => exact hs.length_lt
    | some v => exact ht.value_lt v hv
  have hlow := hs.neg_le_octave
  have hhigh := hs.octave_le
  have hlarge := lt_overflowThreshold
  have hoctave : (s.octave - Pitch.referenceOctave).natAbs < overflowThreshold := by
    simp only [Pitch.referenceOctave]
    omega
  have hpower : ¬ 1024 ≤ s.octave - Pitch.referenceOctave := by
    simp only [Pitch.referenceOctave]
    omega
  rw [overflow?, if_neg (by have := hs.tempo_lt; omega), if_neg hpower,
    if_neg (Nat.not_le.2 hs.volume_lt)]

end Sequencer

namespace Track

open Sequencer

variable {policy : ErrorPolicy} {mode : ErrorMode} {track : Option ℤ} {voice : List Char}
  {fault : Fault Float}

/-- **How a voice ends a reading beside its flaws**: it has a token with too many digits, or else it
comes to a note that needs a number out of range. -/
inductive Escapes (mode : ErrorMode) (voice : List Char) : Fault Float → Prop
  | digits {before after : List Token} {t : Token} :
      Token.scan voice = before ++ t :: after → (∀ u ∈ before, u.isReadable = true) →
      Token.digitLimit < t.digits.length → Escapes mode voice (.tooManyDigits t.digits.length)
  | number {before after : List Token} {t : Token} {s : Sequencer Float} {notes : Track Float}
      {fault : NumberFault} :
      (∀ u ∈ Token.scan voice, u.isReadable = true) → Token.scan voice = before ++ t :: after →
      Course mode .start before s notes → t.command ∈ Pitch.names → t.value? ≠ some 0 →
      s.overflow? t = some fault → Escapes mode voice (.number fault)

theorem find?_unreadable_iff {ts : List Token} {t : Token} :
    ts.find? (!·.isReadable) = some t ↔ ∃ before after, ts = before ++ t :: after ∧
      (∀ u ∈ before, u.isReadable = true) ∧ Token.digitLimit < t.digits.length := by
  have hmany : (!t.isReadable) = true ↔ Token.digitLimit < t.digits.length := by
    simp [Token.isReadable]
  rw [List.find?_eq_some_iff_append, hmany]
  constructor
  · rintro ⟨ht, before, after, rfl, hbefore⟩
    exact ⟨before, after, rfl, by simpa using hbefore, ht⟩
  · rintro ⟨before, after, rfl, hbefore, ht⟩
    exact ⟨ht, before, after, rfl, by simpa using hbefore⟩

/-- **A voice that escapes ends every reading** in this mode. -/
theorem Escapes.result_read (h : Escapes policy.mode voice fault) :
    (read policy track voice).result = .error fault := by
  cases h with
  | digits hscan hbefore hmany =>
    have hfind := find?_unreadable_iff.2 ⟨_, _, hscan, hbefore, hmany⟩
    rw [read, Run.result_bind, Run.result_ofExcept, tokens, hfind]
    rfl
  | @number before after t s notes fault hread hscan hcourse hname hzero hover =>
    have hnumber := (step_number_iff (hcourse.ready ready_start)).2 ⟨hname, hzero, hover⟩
    have hstops : Stops policy.mode .start (before ++ t :: after) t (.number fault) :=
      .intro hcourse hnumber fun _ hflaw => by cases hflaw
    rw [Track.result_read hread, hscan, result_play_of_stops hstops]
    rfl

theorem readable_or_escapes (mode : ErrorMode) (voice : List Char) :
    (∀ t ∈ Token.scan voice, t.isReadable = true) ∨ ∃ fault, Escapes mode voice fault := by
  cases hfind : (Token.scan voice).find? (!·.isReadable) with
  | none => exact .inl (by simpa using List.find?_eq_none.1 hfind)
  | some t =>
    obtain ⟨before, after, hscan, hbefore, hmany⟩ := find?_unreadable_iff.1 hfind
    exact .inr ⟨_, .digits hscan hbefore hmany⟩

/-- **How a reading of a voice fails**: with what is wrong with its tokens, in strict mode, and with
what it escapes by. -/
theorem failsBy_read (policy : ErrorPolicy) (track : Option ℤ) (voice : List Char) :
    (read policy track voice).FailsBy fun fault =>
      (policy.mode = .strict ∧ fault ∈ complaints track (Token.scan voice)) ∨
        Escapes policy.mode voice fault := by
  rcases readable_or_escapes policy.mode voice with hread | ⟨fault, hescapes⟩
  · have hresult := result_read (α := Float) hread policy track
    rcases course_or_stops policy.mode (.start : Sequencer Float) (Token.scan voice) with
      ⟨last, notes, hcourse⟩ | ⟨t, refusal, hstops⟩
    · -- the voice is read, so that none of the causes is there
      rw [result_play_of_course hcourse] at hresult
      refine .inl ⟨notes, hresult, ?_⟩
      rintro fault (⟨hstrict, hcomplaint⟩ | hescapes)
      · obtain ⟨t, ht, hflaw⟩ := List.mem_filterMap.1 hcomplaint
        rw [hstrict] at hcourse
        rw [hcourse.flaw?_eq_none ready_start t ht] at hflaw
        cases hflaw
      · rw [hescapes.result_read] at hresult
        cases hresult
    · rw [result_play_of_stops hstops] at hresult
      refine .inr ⟨_, hresult, ?_⟩
      cases refusal with
      | flaw flaw =>
        obtain ⟨hstrict, ht, hflaw⟩ := hstops.flaw ready_start
        exact .inl ⟨hstrict, List.mem_filterMap.2 ⟨t, ht, by rw [hflaw]; rfl⟩⟩
      | number fault =>
        obtain ⟨before, after, last, notes, hscan, hcourse, hnumber⟩ := hstops.number
        obtain ⟨hname, hzero, hover⟩ := (step_number_iff (hcourse.ready ready_start)).1 hnumber
        exact .inr (.number hread hscan hcourse hname hzero hover)
  · exact .inr ⟨fault, hescapes.result_read, .inr hescapes⟩

/-- A blank voice has no tokens, so it does not escape. -/
theorem not_escapes_of_blank (hblank : voice.all isBlank = true) : ¬ Escapes mode voice fault := by
  have hscan : [] = Token.scan voice := by
    have hcut : Token.Cut 0 (voice ++ []) [] := .append_blanks (by simpa using hblank) .nil
    rw [List.append_nil] at hcut
    exact hcut.eq_scanFrom
  intro h
  cases h with
  | digits h | number _ h =>
    rw [← hscan] at h
    simp at h

/-- **A voice with modest numbers does not escape**, unless it is so long that the octave could leave
the range step by step. -/
theorem not_escapes_of_modest {top : ℕ} (htop : 4 ≤ top)
    (hread : ∀ t ∈ Token.scan voice, t.isReadable = true)
    (hmodest : ∀ t ∈ Token.scan voice, t.Modest top)
    (hlength : top + (Token.scan voice).length ≤ 1028) : ¬ Escapes mode voice fault := by
  intro h
  cases h with
  | @digits before after t hscan _ hmany =>
    have ht : t.isReadable = true := hread t (by simp [hscan])
    simp only [Token.isReadable, decide_eq_true_eq] at ht
    omega
  | @number before after t s notes fault _ hscan hcourse _ _ hover =>
    -- fewer tokens stand before the note than the octave has room for
    rw [hscan] at hmodest hlength
    have hbefore : ∀ u ∈ before, u.Modest top := fun u hu => hmodest u (List.mem_append_left _ hu)
    have hrange := hcourse.inRange (inRange_start htop) hbefore
    rw [List.length_append, List.length_cons] at hlength
    rw [hrange.overflow?_eq_none (hmodest t (by simp)) (by omega)] at hover
    cases hover

end Track

/-! ### Texts -/

theorem failsBy_excuse {α : Type} (policy : ErrorPolicy) (fault : Fault α) (entry : Entry α) :
    (excuse policy fault entry).FailsBy fun cause => policy.mode = .strict ∧ cause = fault := by
  cases hmode : policy.mode with
  | strict =>
    rw [excuse_strict hmode]
    exact .inr ⟨fault, rfl, rfl, rfl⟩
  | lenient =>
    rw [excuse_lenient hmode]
    exact .inl ⟨(), rfl, fun cause h => by cases h.1⟩

namespace Score

open Sequencer Track

variable {mode : ErrorMode} {track : ℕ} {voice : List Char} {voices : List (List Char)}
  {fault : Fault Float}

/-- **Why a reading of voices fails**, the first of which has the number `track`: something is wrong
with them, which matters in strict mode only, or one of them escapes. -/
def Fails (mode : ErrorMode) (track : ℕ) (voices : List (List Char)) (fault : Fault Float) : Prop :=
  (mode = .strict ∧ fault ∈ complaintsFrom track voices) ∨ ∃ voice ∈ voices, Escapes mode voice fault

theorem fails_cons : Fails mode track (voice :: voices) fault ↔
    ((mode = .strict ∧ fault ∈ complaintsAt track voice) ∨ Escapes mode voice fault) ∨
      Fails mode (track + 1) voices fault := by
  simp only [Fails, complaintsFrom_cons, List.mem_append, List.exists_mem_cons_iff]
  tauto

theorem failsBy_readVoices (policy : ErrorPolicy) (track : ℕ) (voices : List (List Char)) :
    (readVoices policy track voices).FailsBy (Fails policy.mode track voices) := by
  induction voices generalizing track with
  | nil =>
    refine .inl ⟨[], rfl, ?_⟩
    rintro fault (⟨-, h⟩ | ⟨_, h, -⟩)
    · exact absurd h List.not_mem_nil
    · exact absurd h List.not_mem_nil
  | cons voice voices ih =>
    simp only [readVoices]
    by_cases hblank : voice.all isBlank
    · -- a blank voice is a complaint and nothing else
      rw [if_pos hblank]
      refine ((failsBy_excuse policy _ _).bind fun _ => ih (track + 1)).congr fun fault => ?_
      have hquiet : ¬ Escapes policy.mode voice fault := not_escapes_of_blank hblank
      rw [fails_cons, complaintsAt, if_pos hblank, List.mem_singleton, or_iff_left hquiet]
    · rw [if_neg hblank]
      refine ((failsBy_read policy _ voice).bind fun notes => (ih (track + 1)).bind fun tracks =>
        .pure _).congr fun fault => ?_
      rw [fails_cons, complaintsAt, if_neg hblank, or_false]

/-- **How a text is read.** A reading ends well unless a voice escapes or, in strict mode, something is
wrong with the text. It fails with one of these causes and with nothing else: in strict mode with what
is wrong, in either mode with what a voice escapes by. A lenient reading that ends well has entered
everything that is wrong, and left it out. -/
theorem read_ends (policy : ErrorPolicy) (text : String) :
    ((∃ tracks, (read policy text : Run Float _).result = .ok tracks) ↔
      (policy.mode = .strict → complaints text = ([] : List (Fault Float))) ∧
        ∀ voice ∈ Score.voices text, ∀ fault, ¬ Escapes policy.mode voice fault) ∧
    (∀ fault, (read policy text : Run Float (List (Track Float))).result = .error fault →
      (policy.mode = .strict ∧ fault ∈ complaints text ∧ ∃ flaw, fault = .score flaw) ∨
        ∃ voice ∈ Score.voices text, Escapes policy.mode voice fault) ∧
    (policy.mode = .lenient → ∀ tracks, (read policy text : Run Float _).result = .ok tracks →
      (read policy text : Run Float (List (Track Float))).trace = skippedAll (complaints text)) := by
  have hfails := failsBy_readVoices policy 0 (Score.voices text)
  refine ⟨?_, ?_, ?_⟩
  · rw [read, hfails.exists_ok_iff]
    constructor
    · intro hnone
      refine ⟨fun hmode => List.eq_nil_iff_forall_not_mem.2 fun fault h => ?_, ?_⟩
      · exact hnone fault (.inl ⟨hmode, h⟩)
      · intro voice hvoice fault h
        exact hnone fault (.inr ⟨voice, hvoice, h⟩)
    · rintro ⟨hsound, hquiet⟩ fault (⟨hmode, h⟩ | ⟨voice, hvoice, h⟩)
      · have hnil : complaintsFrom 0 (Score.voices text) = ([] : List (Fault Float)) := hsound hmode
        rw [hnil] at h
        exact absurd h List.not_mem_nil
      · exact hquiet voice hvoice fault h
  · intro fault hfault
    rcases hfails.of_error hfault with ⟨hmode, h⟩ | h
    · obtain ⟨_, _, -, ⟨-, rfl⟩ | ⟨_, _, _, -, rfl⟩⟩ := mem_complaints h
      · exact .inl ⟨hmode, h, _, rfl⟩
      · exact .inl ⟨hmode, h, _, rfl⟩
    · exact .inr h
  · -- a reading that ends well met no number out of range, so it left all complaints behind
    intro hmode tracks htracks
    have hread : ∀ voice ∈ Score.voices text, ∀ t ∈ Token.scan voice, t.isReadable = true := by
      intro voice hvoice
      rcases readable_or_escapes policy.mode voice with hread | ⟨fault, hescapes⟩
      · exact hread
      · exact absurd (.inr ⟨voice, hvoice, hescapes⟩) (hfails.exists_ok_iff.1 ⟨tracks, htracks⟩ fault)
    have hnumber : ∀ fault,
        (readVoices policy 0 (Score.voices text) : Run Float _).result ≠ .error (.number fault) := by
      intro fault hfault
      rw [show (readVoices policy 0 (Score.voices text)).result = .ok tracks from htracks] at hfault
      cases hfault
    obtain ⟨_, -, hrun⟩ := readVoices_lenient hmode _ 0 hread hnumber
    exact congrArg Run.trace hrun

/-- In the octave 1028 a note needs a power of two that is no double. -/
theorem result_read_high_octave (policy : ErrorPolicy) :
    (read policy "o1028c" : Run Float (List (Track Float))).result =
      .error (.number .powerTooLarge) := by
  have hvoices : Score.voices "o1028c" = [['o', '1', '0', '2', '8', 'c']] := by decide +kernel
  have hscan : Token.scan ['o', '1', '0', '2', '8', 'c'] =
      [⟨['o'], ['1', '0', '2', '8'], false, 0⟩] ++ ⟨['c'], [], false, 5⟩ :: [] := by decide +kernel
  have hstep : (start : Sequencer Float).step ⟨['o'], ['1', '0', '2', '8'], false, 0⟩ =
      .ok ({ start with octave := 1028 }, none) := rfl
  have hcourse : Course policy.mode (start : Sequencer Float)
      [⟨['o'], ['1', '0', '2', '8'], false, 0⟩] { start with octave := 1028 }
      (Option.toList none ++ []) := .step hstep .nil
  have hescapes : Escapes policy.mode ['o', '1', '0', '2', '8', 'c'] (.number .powerTooLarge) :=
    .number (by decide +kernel) hscan hcourse (by decide) (by decide) (by decide +kernel)
  rw [read, hvoices, readVoices, if_neg (by decide), Run.result_bind, hescapes.result_read]
  rfl

/-- A voice with modest numbers is read, and one with a high octave is not. -/
theorem read_ends_high_octave :
    (∃ tracks, (read ⟨.strict, none⟩ "t99o5c>d8." : Run Float _).result = .ok tracks) ∧
    ∃ voice ∈ Score.voices "o1028c", Escapes .lenient voice (.number .powerTooLarge) := by
  constructor
  · have hvoices : Score.voices "t99o5c>d8." =
        [['t', '9', '9', 'o', '5', 'c', '>', 'd', '8', '.']] := by decide +kernel
    have hcomplaints : complaints "t99o5c>d8." = ([] : List (Fault Float)) := by cbv
    have hquiet : ∀ voice ∈ Score.voices "t99o5c>d8.", ∀ fault, ¬ Escapes .strict voice fault := by
      intro voice hvoice fault
      rw [hvoices, List.mem_singleton] at hvoice
      subst hvoice
      exact not_escapes_of_modest (show 4 ≤ 5 by decide) (by decide +kernel) (by decide +kernel)
        (by decide +kernel)
    exact (read_ends ⟨.strict, none⟩ "t99o5c>d8.").1.2 ⟨fun _ => hcomplaints, hquiet⟩
  · have hresult := result_read_high_octave ⟨.lenient, none⟩
    rcases (read_ends ⟨.lenient, none⟩ "o1028c").2.1 _ hresult with ⟨hmode, -⟩ | h
    · cases hmode
    · exact h

/-- **Nothing is wrong with this text, and yet neither mode reads it**: it ends both readings with a
fault that is none of a score. -/
theorem read_fails_high_octave :
    ¬ ((∃ tracks, (read ⟨.strict, none⟩ "o1028c" : Run Float _).result = .ok tracks) ∨
      ∃ flaw, (read ⟨.strict, none⟩ "o1028c" : Run Float (List (Track Float))).result =
        .error (.score flaw)) ∧
    ¬ ∃ tracks, (read ⟨.lenient, none⟩ "o1028c" : Run Float _).result = .ok tracks := by
  constructor
  · rintro (⟨tracks, h⟩ | ⟨flaw, h⟩)
    · rw [result_read_high_octave] at h
      cases h
    · rw [result_read_high_octave] at h
      cases h
  · rintro ⟨tracks, h⟩
    rw [result_read_high_octave] at h
    cases h

end Score

end Polyphony
