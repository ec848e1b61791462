import Mathlib
import Polyphony.Proofs.Score.Row

/-!
# Insertions

What is written between two tokens of a voice changes nothing about the tokens on both sides. So it has the
effect that it has by itself, on the state that the later tokens are read in.

* `Track.insertAt`: a voice with something written at a place.
* `Track.Idle`: what has no effect: a tie, an octave mark with its opposite, and blanks.
* `Sequencer.Course.retuned`: tokens in another octave. **The notes are the same but for their
  frequencies**, unless a number leaves the range.
* `Sequencer.Course.raised`: in exact arithmetic the frequencies change by a power of two.
* `Token.nextOctave`: the place up to which this is heard, the next token that sets the octave.
* `Track.read_insertAt`: **what an insertion does to a voice.**
-/

namespace Polyphony

open Text

/-- A note that is the same but for its frequency. -/
def Note.Retuned {α : Type} (n m : Note α) : Prop := ∃ frequency, m = { n with frequency := frequency }

/-- A note with its frequency multiplied. -/
noncomputable def Note.scaled (factor : ℝ) (n : Note ℝ) : Note ℝ :=
  { n with frequency := n.frequency * factor }

/-! ### Tokens in another octave -/

namespace Sequencer

/-- A state some octaves higher. -/
def raised {α : Type} (s : Sequencer α) (k : ℤ) : Sequencer α := { s with octave := s.octave + k }

section Retuned

variable {α : Type} [Scalar α] {s after last : Sequencer α} {t : Token} {ts : List Token}
  {n : Option (Note α)} {notes : List (Note α)}

/-- **A token in another octave** does the same, but the frequency of its note is another one or leaves the
range. -/
theorem step_retuned (h : s.step t = .ok (after, n)) (octave : ℤ) :
    (∃ fault, { s with octave := octave }.step t = .error (.number fault)) ∨
    ∃ octave' n', { s with octave := octave }.step t = .ok ({ after with octave := octave' }, n') ∧
      List.Forall₂ Note.Retuned n.toList n'.toList := by
  cases step_cases h with
  | octave hc hv => exact .inr ⟨_, none, (Acts.octave hc hv).step_eq, .nil⟩
  | tempo hc hv h0 => exact .inr ⟨_, none, (Acts.tempo hc hv h0).step_eq, .nil⟩
  | length hc hv h0 => exact .inr ⟨_, none, (Acts.length hc hv h0).step_eq, .nil⟩
  | volume hc hv => exact .inr ⟨_, none, (Acts.volume hc hv).step_eq, .nil⟩
  | up hc => exact .inr ⟨_, none, (Acts.up hc).step_eq, .nil⟩
  | down hc => exact .inr ⟨_, none, (Acts.down hc).step_eq, .nil⟩
  | tie hc => exact .inr ⟨_, none, (Acts.tie hc).step_eq, .nil⟩
  | @note f m hf hm =>
    have hvaried := note_varied hm rfl rfl rfl octave f
    cases hfrequency : Pitch.onOctave? f octave with
    | error fault =>
      rw [hfrequency] at hvaried
      refine .inl ⟨fault, ?_⟩
      rw [step_of_frequency? hf, hvaried]
      rfl
    | ok frequency =>
      rw [hfrequency] at hvaried
      exact .inr ⟨octave, some { m with frequency := frequency }, (Acts.note hf hvaried).step_eq,
        .cons ⟨frequency, rfl⟩ .nil⟩

/-- **Tokens in another octave** give the same notes but for their frequencies, unless a number leaves the
range. -/
theorem Course.retuned (h : Course .strict s ts last notes) (octave : ℤ) :
    (∃ t fault, Stops .strict { s with octave := octave } ts t (.number fault)) ∨
    ∃ last' notes', Course .strict { s with octave := octave } ts last' notes' ∧
      List.Forall₂ Note.Retuned notes notes' := by
  induction h generalizing octave with
  | nil => exact .inr ⟨_, [], .nil, .nil⟩
  | @step s after last t n ts notes hstep _ ih =>
    rcases step_retuned hstep octave with ⟨fault, hfault⟩ | ⟨octave', n', hstep', hn⟩
    · exact .inl ⟨t, fault, show Stops _ _ ([] ++ t :: ts) t _ from .intro .nil hfault fun _ h => by cases h⟩
    · rcases ih octave' with ⟨u, fault, hstops⟩ | ⟨last', notes', hcourse, hnotes⟩
      · exact .inl ⟨u, fault, .of_step hstep' hstops⟩
      · exact .inr ⟨last', _, .step hstep' hcourse, List.rel_append hn hnotes⟩
  | skip hlenient => cases hlenient

end Retuned

section Raised

variable {s after last : Sequencer ℝ} {t : Token} {ts : List Token} {n : Option (Note ℝ)}
  {notes : List (Note ℝ)} {k : ℤ}

/-- **A token some octaves higher** in exact arithmetic, if it does not set the octave. -/
theorem step_raised (hother : t.command ≠ ['o']) (h : s.step t = .ok (after, n)) :
    (s.raised k).step t = .ok (after.raised k, n.map (Note.scaled (2 ^ k))) := by
  cases step_cases h with
  | octave hc => exact absurd hc hother
  | tempo hc hv h0 => exact (Acts.tempo hc hv h0).step_eq
  | length hc hv h0 => exact (Acts.length hc hv h0).step_eq
  | volume hc hv => exact (Acts.volume hc hv).step_eq
  | up hc =>
    rw [(Acts.up hc).step_eq, raised, raised, add_right_comm]
    rfl
  | down hc =>
    rw [(Acts.down hc).step_eq, raised, raised, add_sub_right_comm]
    rfl
  | tie hc => exact (Acts.tie hc).step_eq
  | @note f m hf hm =>
    have hdivisor : s.divisor t ≠ 0 := divisor_ne_zero_of_note hm
    have hdivisor' : (s.raised k).divisor t ≠ 0 := hdivisor
    rw [note_exact hdivisor] at hm
    cases hm
    have hhigher : (s.raised k).note t f = .ok (Note.scaled (2 ^ k)
        ⟨s.time, s.seconds t, f * 2 ^ (s.octave - 4), s.volume / 200, Pitch.isRest t.command⟩) := by
      rw [note_exact hdivisor', Note.scaled, mul_assoc, ← zpow_add₀ (two_ne_zero' ℝ), ← add_sub_right_comm]
      rfl
    exact (Acts.note hf hhigher).step_eq

/-- A token that sets the octave, after which it does not matter which one it was. -/
theorem step_raised_octave (hc : t.command = ['o']) (h : s.step t = .ok (after, n)) :
    (s.raised k).step t = .ok (after, n) := by
  cases step_cases h with
  | octave hc hv => exact (Acts.octave hc hv).step_eq
  | tempo hc' | length hc' | volume hc' | up hc' | down hc' | tie hc' =>
    rw [hc] at hc'
    cases hc'
  | note hf =>
    have hname := Pitch.mem_names_of_frequency? hf
    rw [hc] at hname
    exact absurd hname (by decide)

/-- **Tokens some octaves higher**, if none of them sets the octave. -/
theorem Course.raised (h : Course .strict s ts last notes) (hother : ∀ t ∈ ts, t.command ≠ ['o']) :
    Course .strict (s.raised k) ts (last.raised k) (notes.map (Note.scaled (2 ^ k))) :=
  h.carried (fun s => s.raised k) _ fun t ht _ _ _ => step_raised (hother t ht)

end Raised

end Sequencer

/-! ### The next token that sets the octave -/

/-- Whether a token sets the octave at a place or later. -/
def Token.setsOctave (p : ℕ) (t : Token) : Bool := p ≤ t.position ∧ t.command = ['o']

/-- **The place of the next token that sets the octave**, or the end of the voice. -/
def Token.nextOctave (voice : List Char) (p : ℕ) : ℕ :=
  ((scan voice).find? (setsOctave p)).elim voice.length position

/-- Whether a row is over or begins with a word that sets the octave. -/
def ResetsOctave (row : List Segment) : Prop :=
  row = [] ∨ ∃ w later, row = .word w :: later ∧ w.command = ['o']

/-- The part of a row before the octave is set. -/
theorem exists_until_octave (row : List Segment) : ∃ middle rest, row = middle ++ rest ∧
    (∀ w ∈ middle.filterMap Segment.word?, w.command ≠ ['o']) ∧ ResetsOctave rest := by
  induction row with
  | nil => exact ⟨[], [], rfl, by simp, .inl rfl⟩
  | cons segment row ih =>
    obtain ⟨middle, rest, rfl, hmiddle, hrest⟩ := ih
    cases segment with
    | blank c => exact ⟨.blank c :: middle, rest, rfl, hmiddle, hrest⟩
    | word w =>
      by_cases hw : w.command = ['o']
      · exact ⟨[], .word w :: (middle ++ rest), rfl, by simp, .inr ⟨w, _, rfl, hw⟩⟩
      · exact ⟨.word w :: middle, rest, rfl, List.forall_mem_cons.2 ⟨hw, hmiddle⟩, hrest⟩

/-- No token before a place sets the octave there or later. -/
theorem Token.find?_setsOctave_of_scan (before : List Char) :
    (scan before).find? (setsOctave before.length) = none := by
  refine List.find?_eq_none.2 fun t ht hfound => ?_
  have hplace : before.length ≤ t.position := (of_decide_eq_true hfound).1
  have hbefore := position_lt_of_mem_scan ht
  omega

/-- The next token that sets the octave is the one that the row has next. -/
theorem Token.nextOctave_eq (before : List Char) {u v : List Char} {middle rest : List Segment}
    (hu : Spells middle u) (hv : Spells rest v)
    (hmiddle : ∀ w ∈ middle.filterMap Segment.word?, w.command ≠ ['o']) (hrest : ResetsOctave rest) :
    nextOctave (before ++ (u ++ v)) before.length = before.length + u.length := by
  set p := before.length
  have hscan : scan (before ++ (u ++ v)) = scan before ++ (scanFrom p u ++ scanFrom (p + u.length) v) := by
    rw [(hu.append hv).scan_append, hv.scanFrom_append]
  have hnone : (scanFrom p u).find? (setsOctave p) = none :=
    List.find?_eq_none.2 fun t ht hfound => hmiddle _ (hu.word_mem ht) (of_decide_eq_true hfound).2
  rw [nextOctave, hscan, List.find?_append, List.find?_append, find?_setsOctave_of_scan, hnone,
    Option.none_or, Option.none_or]
  rcases hrest with rfl | ⟨w, later, rfl, hw⟩
  · -- the voice is over before the octave is set
    obtain rfl : [] = v := hv.text
    rw [scanFrom, List.find?_nil, List.append_nil]
    exact List.length_append
  · obtain ⟨hsound, v, rfl, hlater⟩ := spells_cons.1 hv
    have hfound : setsOctave p (w.token (p + u.length)) = true :=
      decide_eq_true ⟨Nat.le_add_right _ _, hw⟩
    rw [hlater.scanFrom_cons hsound]
    exact congrArg (fun found : Option Token => found.elim _ position) (List.find?_cons_of_pos hfound)

/-! ### What is written at a place -/

/-- A word that is one character. -/
def Word.mark (c : Char) : Word := ⟨[c], [], false⟩

/-- The marks that take no digits. -/
theorem legible_mark {c : Char} (h : [c] ∈ [['>'], ['<'], ['&']]) : Legible [.word (.mark c)] [c] :=
  Word.Sound.legible (w := Word.mark c) ⟨.free h, fun _ hd => absurd hd List.not_mem_nil⟩ (Nat.zero_le _)

namespace Track

open Sequencer

/-- **A voice with something written at a place.** -/
def insertAt (p : ℕ) (extra voice : List Char) : List Char := voice.take p ++ (extra ++ voice.drop p)

/-- **What has no effect**: a tie, an octave mark and its opposite, or blanks. -/
def Idle (extra : List Char) : Prop :=
  extra ∈ [['&'], ['>', '<'], ['<', '>']] ∨ ∀ c ∈ extra, isBlank c = true

section Generic

variable {α : Type} [Scalar α] {policy : ErrorPolicy} {track : Option ℤ} {voice extra : List Char}
  {row : List Segment} {s after : Sequencer α} {notes : Track α} {p : ℕ} {k : ℤ} {c : Char}

theorem gives_mark (h : Acts s ((Word.mark c).token 0) after none) : Gives s [.word (.mark c)] after [] :=
  gives_cons_word.2 ⟨after, none, [], h.step_eq, .nil, rfl⟩

theorem gives_up (s : Sequencer α) : Gives s [.word (.mark '>')] (s.raised 1) [] := gives_mark (.up rfl)

theorem gives_down (s : Sequencer α) : Gives s [.word (.mark '<')] (s.raised (-1)) [] :=
  gives_mark (.down rfl)

omit [Scalar α] in
theorem raised_raised (s : Sequencer α) (k : ℤ) : (s.raised k).raised (-k) = s := by
  rw [raised, raised, add_neg_cancel_right]

/-- What has no effect is a row that gives nothing and leaves every state alone. -/
theorem Idle.exists_row (h : Idle extra) :
    ∃ row, Legible row extra ∧ ∀ s : Sequencer α, Gives s row s [] := by
  rcases h with hmark | hblank
  · simp only [List.mem_cons, List.not_mem_nil, or_false] at hmark
    have hup := legible_mark (c := '>') (by simp)
    have hdown := legible_mark (c := '<') (by simp)
    rcases hmark with rfl | rfl | rfl
    · exact ⟨_, legible_mark (by simp), fun s => gives_mark (.tie rfl)⟩
    · refine ⟨_, hup.append hdown, fun s => ?_⟩
      have hback := (gives_up s).append (gives_down _)
      rwa [raised_raised] at hback
    · refine ⟨_, hdown.append hup, fun s => ?_⟩
      have hback := (gives_down s).append (gives_up _)
      rwa [show (s.raised (-1)).raised 1 = s from raised_raised s (-1)] at hback
  · refine ⟨extra.map .blank, ⟨⟨?_, fun segment hmem => ?_⟩, ?_⟩, fun s => ?_⟩
    · rw [List.flatMap_map]
      exact List.flatMap_singleton' extra
    · obtain ⟨c, hc, rfl⟩ := List.mem_map.1 hmem
      exact hblank c hc
    · simp [Segment.word?]
    · have hnone : (extra.map Segment.blank).filterMap (Segment.token? 0) = [] := by
        simp [Segment.token?]
      unfold Gives
      rw [hnone]
      exact .nil

/-- **What has no effect can be written between any two tokens.** -/
theorem read_insertAt_idle (hmode : policy.mode = .strict)
    (hread : (read policy track voice : Run α (Track α)).result = .ok notes)
    (hp : Token.IsBoundary voice p) (hidle : Idle extra) :
    (read policy track (insertAt p extra voice)).result = .ok notes := by
  obtain ⟨left, right, mid, earlier, last, later, hleft, hright, hearlier, hlater, rfl⟩ :=
    exists_halves hmode hread hp
  obtain ⟨row, hrow, hgives⟩ := hidle.exists_row (α := α)
  exact (read_eq_ok_iff hmode).2 ⟨left ++ (row ++ right), hleft.append (hrow.append hright), last,
    hearlier.append ((hgives mid).append hlater)⟩

/-- **What moves the octave** changes no more than the frequencies of notes, unless one of them leaves the
range. -/
theorem read_insertAt_raised (hmode : policy.mode = .strict)
    (hread : (read policy track voice : Run α (Track α)).result = .ok notes)
    (hp : Token.IsBoundary voice p) (hrow : Legible row extra)
    (hraised : ∀ s : Sequencer α, Gives s row (s.raised k) []) :
    (∃ fault, (read policy track (insertAt p extra voice) : Run α (Track α)).result =
      .error (.number fault)) ∨
    ∃ notes', (read policy track (insertAt p extra voice)).result = .ok notes' ∧
      List.Forall₂ Note.Retuned notes notes' := by
  obtain ⟨left, right, mid, earlier, last, later, hleft, hright, hearlier, hlater, rfl⟩ :=
    exists_halves hmode hread hp
  set before := voice.take p ++ extra
  have hvoice : insertAt p extra voice = before ++ voice.drop p := (List.append_assoc _ _ _).symm
  have hbefore : Legible (left ++ row) before := hleft.append hrow
  have hdigits := (hbefore.append hright).isReadable 0
  have hcourse : Course .strict start (Token.scan before) (mid.raised k) (earlier ++ []) :=
    (hearlier.append (hraised mid)).course_scan hbefore 0
  rw [List.append_nil] at hcourse
  have hsame : List.Forall₂ Note.Retuned earlier earlier :=
    List.forall₂_same.2 fun n _ => ⟨n.frequency, rfl⟩
  rw [hvoice, result_read hdigits, hright.spells.scan_append]
  rcases (hlater.course_scan hright before.length).retuned (mid.octave + k) with
    ⟨t, fault, hstops⟩ | ⟨last', later', hcourse', hretuned⟩
  · exact .inl ⟨fault, result_play_of_stops (hmode ▸ Stops.append hcourse hstops)⟩
  · exact .inr ⟨earlier ++ later', result_play_of_course (hmode ▸ hcourse.append hcourse'),
      List.rel_append hsame hretuned⟩

end Generic

/-! ### In exact arithmetic -/

section Exact

variable {policy : ErrorPolicy} {track : Option ℤ} {voice : List Char} {row : List Segment}
  {s last : Sequencer ℝ} {notes : Track ℝ} {p : ℕ}

/-- Once the octave is set, it does not matter which one it was. -/
theorem Gives.of_resetsOctave (h : Gives s row last notes) (hreset : ResetsOctave row) (k : ℤ) :
    ∃ last', Gives (s.raised k) row last' notes := by
  rcases hreset with rfl | ⟨w, later, rfl, hw⟩
  · cases (h : Course .strict s [] last notes)
    exact ⟨_, .nil⟩
  · obtain ⟨after, n, notes, hstep, hlater, rfl⟩ := gives_cons_word.1 h
    exact ⟨last, gives_cons_word.2 ⟨after, n, notes, step_raised_octave hw hstep, hlater, rfl⟩⟩

/-- A row in which the octave is not set, some octaves higher. -/
theorem Gives.raised (h : Gives s row last notes)
    (hother : ∀ w ∈ row.filterMap Segment.word?, w.command ≠ ['o']) (k : ℤ) :
    Gives (s.raised k) row (last.raised k) (notes.map (Note.scaled (2 ^ k))) := by
  refine Course.raised h fun t ht => ?_
  have hword : t.word ∈ row.filterMap Segment.word? := by
    rw [← map_word_filterMap_token?]
    exact List.mem_map_of_mem ht
  exact hother t.word hword

/-- **What moves the octave is heard until it is set again**, and each frequency by then is multiplied. -/
theorem read_insertAt_exact (hmode : policy.mode = .strict)
    (hread : (read policy track voice).result = .ok notes) (hp : Token.IsBoundary voice p) :
    ∃ before between after, (read policy track (voice.take p)).result = .ok before ∧
      (read policy track (voice.take (Token.nextOctave voice p))).result = .ok (before ++ between) ∧
      notes = before ++ (between ++ after) ∧
      ∀ extra row k, Legible row extra → (∀ s : Sequencer ℝ, Gives s row (s.raised k) []) →
        (read policy track (insertAt p extra voice)).result =
          .ok (before ++ (between.map (Note.scaled (2 ^ k)) ++ after)) := by
  obtain ⟨left, right, mid, before, last, later, hleft, hright, hbefore, hlater, rfl⟩ :=
    exists_halves hmode hread hp
  obtain ⟨middle, rest, rfl, hmiddle, hrest⟩ := exists_until_octave right
  obtain ⟨u, v, huv, hu, hv⟩ := hright.of_append
  obtain ⟨mid', between, after, hbetween, hafter, rfl⟩ := hlater.split
  have hlength : (voice.take p).length = p := List.length_take_of_le hp.1
  have hvoice : voice.take p ++ (u ++ v) = voice := by rw [huv, List.take_append_drop]
  have hnext : voice.take (Token.nextOctave voice p) = voice.take p ++ u := by
    have hplace := Token.nextOctave_eq (voice.take p) hu.spells hv.spells hmiddle hrest
    rw [hvoice, hlength] at hplace
    rw [hplace, ← List.take_append_drop p voice, ← huv]
    simp [List.take_append, hlength]
  refine ⟨before, between, after, ?_, ?_, rfl, fun extra row k hrow hraised => ?_⟩
  · exact (read_eq_ok_iff hmode).2 ⟨left, hleft, mid, hbefore⟩
  · rw [hnext]
    exact (read_eq_ok_iff hmode).2 ⟨left ++ middle, hleft.append hu, mid', hbefore.append hbetween⟩
  · obtain ⟨last', hafter'⟩ := hafter.of_resetsOctave hrest k
    exact (read_eq_ok_iff hmode).2 ⟨left ++ (row ++ (middle ++ rest)),
      hleft.append (hrow.append hright), last',
      hbefore.append ((hraised mid).append ((hbetween.raised hmiddle k).append hafter'))⟩

end Exact

/-- **What an insertion between two tokens does** to a voice that is read strictly. A tie, an octave mark
with its opposite, or blanks change nothing. An octave mark changes the frequencies at most, unless one of
them leaves the range; and in exact arithmetic it doubles or halves those of the notes between it and the
next token that sets the octave, and no others. -/
theorem read_insertAt {α : Type} [Scalar α] {policy : ErrorPolicy} {track : Option ℤ} {voice : List Char}
    {notes : Track α} {p : ℕ} (hmode : policy.mode = .strict)
    (hread : (read policy track voice).result = .ok notes) (hp : Token.IsBoundary voice p) :
    (∀ extra, Idle extra → (read policy track (insertAt p extra voice)).result = .ok notes) ∧
    (∀ mark ∈ ['>', '<'],
      (∃ fault, (read policy track (insertAt p [mark] voice) : Run α (Track α)).result =
        .error (.number fault)) ∨
      ∃ notes', (read policy track (insertAt p [mark] voice)).result = .ok notes' ∧
        List.Forall₂ Note.Retuned notes notes') ∧
    ∃ before between after : Track ℝ,
      (read policy track (voice.take p)).result = .ok before ∧
      (read policy track (voice.take (Token.nextOctave voice p))).result = .ok (before ++ between) ∧
      (read policy track voice).result = .ok (before ++ (between ++ after)) ∧
      (read policy track (insertAt p ['>'] voice)).result =
        .ok (before ++ (between.map (Note.scaled 2) ++ after)) ∧
      (read policy track (insertAt p ['<'] voice)).result =
        .ok (before ++ (between.map (Note.scaled (1 / 2)) ++ after)) := by
  have hup := legible_mark (c := '>') (by simp)
  have hdown := legible_mark (c := '<') (by simp)
  refine ⟨fun extra hidle => read_insertAt_idle hmode hread hp hidle, fun mark hmark => ?_, ?_⟩
  · simp only [List.mem_cons, List.not_mem_nil, or_false] at hmark
    rcases hmark with rfl | rfl
    · exact read_insertAt_raised hmode hread hp hup gives_up
    · exact read_insertAt_raised hmode hread hp hdown gives_down
  · obtain ⟨exact, hexact⟩ := exists_read_exact hmode hread
    obtain ⟨before, between, after, hbefore, hbetween, rfl, hraised⟩ := read_insertAt_exact hmode hexact hp
    have htwice := hraised _ _ _ hup gives_up
    have hhalf := hraised _ _ _ hdown gives_down
    rw [zpow_one] at htwice
    rw [zpow_neg_one, ← one_div] at hhalf
    exact ⟨before, between, after, hbefore, hbetween, hexact, htwice, hhalf⟩

/-- A tie and an octave mark after the first of three notes, before the octave is set for the third. -/
theorem read_insertAt_second_note : ∃ notes : Track Float,
    (read ⟨.strict, none⟩ none ['c', 'd', 'o', '5', 'e']).result = .ok notes ∧
    Token.IsBoundary ['c', 'd', 'o', '5', 'e'] 1 ∧
    (read ⟨.strict, none⟩ none ['c', '&', 'd', 'o', '5', 'e']).result = .ok notes ∧
    ∃ before between after : Track ℝ, (read ⟨.strict, none⟩ none ['c']).result = .ok before ∧
      (read ⟨.strict, none⟩ none ['c', 'd']).result = .ok (before ++ between) ∧
      (read ⟨.strict, none⟩ none ['c', '>', 'd', 'o', '5', 'e']).result =
        .ok (before ++ (between.map (Note.scaled 2) ++ after)) := by
  obtain ⟨notes, hread⟩ : ∃ notes : Track Float,
      (read ⟨.strict, none⟩ none ['c', 'd', 'o', '5', 'e']).result = .ok notes :=
    Run.exists_of_isOk (by decide +kernel)
  have hp : Token.IsBoundary ['c', 'd', 'o', '5', 'e'] 1 := ⟨by decide, by decide +kernel⟩
  obtain ⟨hidle, -, before, between, after, hbefore, hbetween, -, hup, -⟩ := read_insertAt rfl hread hp
  have hnext : Token.nextOctave ['c', 'd', 'o', '5', 'e'] 1 = 2 := by decide +kernel
  rw [hnext] at hbetween
  exact ⟨notes, hread, hp, hidle ['&'] (.inl (by simp)), before, between, after, hbefore, hbetween, hup⟩

end Track

end Polyphony
