import Mathlib
import Polyphony.Proofs.Score.Grammar

/-!
# Readings as rows

A strict reading looks at the words of a voice and not at where they stand. So what it gives can be read off
the row of words and blanks that the voice is; and rows can be put together and taken apart freely, since no
word reaches into the next one.

* `Sequencer.Acts.step_eq`, `Sequencer.step_congr`: what a token does, in whatever place.
* `Sequencer.Course.append`, `Sequencer.Course.split`: the course of tokens is that of its parts.
* `Token.Cut.append`: texts that are cut one after the other.
* `Legible`: a row that a text is, with few enough digits; `Legible.append`, `Legible.split`: put together
  and taken apart where no token reaches over (`Token.IsBoundary`).
* `Track.read_eq_ok_iff`: **what a strict reading gives** is what the row of the voice gives; around a token
  and around a boundary (`Track.exists_around`, `Track.exists_halves`).
-/

namespace Polyphony

open Text

/-! ### Steps and courses -/

namespace Sequencer

variable {α : Type} [Scalar α] {mode : ErrorMode} {s after mid last : Sequencer α} {t u : Token}
  {ts us : List Token} {n : Option (Note α)} {notes later : List (Note α)}

/-- What a token can do it does. -/
theorem Acts.step_eq (h : Acts s t after n) : s.step t = .ok (after, n) := by
  rw [step_eq_checkedStep]
  cases h with
  | octave hc hv | volume hc hv =>
    simp only [checkedStep, hc, setting, hv]
    rfl
  | tempo hc hv h0 | length hc hv h0 =>
    simp [checkedStep, hc, positiveSetting, setting, hv, h0, bind, Except.bind, pure, Except.pure]
  | up hc | down hc | tie hc =>
    simp only [checkedStep, hc]
    rfl
  | note hf hm =>
    rw [← step_eq_checkedStep, step_of_frequency? hf, hm]
    rfl

/-- **Where a token stands has no say** in what it does. -/
theorem step_congr (h : t.word = u.word) : s.step t = s.step u := by
  obtain ⟨command, digits, dotted, position⟩ := t
  obtain ⟨command', digits', dotted', position'⟩ := u
  cases h
  rfl

/-- **A token that names a note** gives it, and leaves the state at the time when it is over. -/
theorem exists_note_of_step (h : s.step t = .ok (after, n)) (hname : t.command ∈ Pitch.names) :
    ∃ f m, Pitch.frequency? t.command = some f ∧ s.note t f = .ok m ∧
      after = { s with time := m.finish } ∧ n = some m := by
  cases step_cases h with
  | octave hc | tempo hc | length hc | volume hc | up hc | down hc | tie hc =>
    rw [hc] at hname
    exact absurd hname (by decide)
  | note hf hm => exact ⟨_, _, hf, hm, rfl, rfl⟩

/-- **The octave and the name of a note** have a say in its frequency and in nothing else. -/
theorem note_varied {f : α} {m : Note α} (h : s.note t f = .ok m) (hvalue : u.value? = t.value?)
    (hdotted : u.dotted = t.dotted) (hrest : Pitch.isRest u.command = Pitch.isRest t.command)
    (octave : ℤ) (g : α) : { s with octave := octave }.note u g =
      (number (Pitch.onOctave? g octave)).map fun frequency => { m with frequency := frequency } := by
  have hdivisor : { s with octave := octave }.divisor u = s.divisor t := by rw [divisor, hvalue, divisor]
  have hzero := divisor_ne_zero_of_note h
  rw [note_of_divisor_ne_zero hzero] at h
  obtain ⟨tempo, htempo, h⟩ := bind_eq_ok h
  obtain ⟨whole, hwhole, h⟩ := bind_eq_ok h
  obtain ⟨frequency, -, h⟩ := bind_eq_ok h
  obtain ⟨volume, hvolume, h⟩ := bind_eq_ok h
  cases h
  rw [note_of_divisor_ne_zero (hdivisor ▸ hzero), hdivisor, htempo, hwhole, hvolume, hdotted, hrest]
  cases number (Pitch.onOctave? g octave) <;> rfl

theorem Course.of_words (h : Course mode s ts last notes) (hwords : ts.map Token.word = us.map Token.word) :
    Course mode s us last notes := by
  induction h generalizing us with
  | nil =>
    obtain rfl : us = [] := by simpa using hwords.symm
    exact .nil
  | step hstep _ ih =>
    obtain ⟨u, us, rfl, hu, hus⟩ := List.map_eq_cons_iff.1 hwords.symm
    rw [step_congr hu.symm] at hstep
    exact .step hstep (ih hus.symm)
  | skip hlenient hstep _ ih =>
    obtain ⟨u, us, rfl, hu, hus⟩ := List.map_eq_cons_iff.1 hwords.symm
    rw [step_congr hu.symm] at hstep
    exact .skip hlenient hstep (ih hus.symm)

/-- **A course goes on** where another one ends. -/
theorem Course.append (h : Course mode s ts mid notes) (h' : Course mode mid us last later) :
    Course mode s (ts ++ us) last (notes ++ later) := by
  induction h with
  | nil => exact h'
  | step hstep _ ih =>
    rw [List.append_assoc]
    exact .step hstep (ih h')
  | skip hlenient hstep _ ih => exact .skip hlenient hstep (ih h')

/-- **A course of tokens in two parts** has a course for each. -/
theorem Course.split (h : Course mode s (ts ++ us) last notes) : ∃ mid first later,
    Course mode s ts mid first ∧ Course mode mid us last later ∧ notes = first ++ later := by
  induction ts generalizing s notes with
  | nil => exact ⟨s, [], notes, .nil, h, rfl⟩
  | cons t ts ih =>
    cases h with
    | step hstep h =>
      obtain ⟨mid, first, later, hfirst, hlater, rfl⟩ := ih h
      exact ⟨mid, _, later, .step hstep hfirst, hlater, (List.append_assoc _ _ _).symm⟩
    | skip hlenient hstep h =>
      obtain ⟨mid, first, later, hfirst, hlater, rfl⟩ := ih h
      exact ⟨mid, first, later, .skip hlenient hstep hfirst, hlater, rfl⟩

/-- **Another course of the same tokens**, from a changed state: if every step carries the change of the
state along, and changes the notes accordingly, so does the course. -/
theorem Course.carried (h : Course .strict s ts last notes) (change : Sequencer α → Sequencer α)
    (changed : Note α → Note α)
    (hstep : ∀ t ∈ ts, ∀ s after n, s.step t = .ok (after, n) →
      (change s).step t = .ok (change after, n.map changed)) :
    Course .strict (change s) ts (change last) (notes.map changed) := by
  induction h with
  | nil => exact .nil
  | @step s after last t n ts notes hfirst _ ih =>
    have hchanged : n.toList.map changed = (n.map changed).toList := by cases n <;> rfl
    rw [List.map_append, hchanged]
    exact .step (hstep t List.mem_cons_self s after n hfirst)
      (ih fun t ht => hstep t (List.mem_cons_of_mem _ ht))
  | skip hlenient => cases hlenient

/-- **A reading that stops later on.** -/
theorem Stops.append {refusal : Refusal} (hcourse : Course mode s us mid notes)
    (h : Stops mode mid ts t refusal) : Stops mode s (us ++ ts) t refusal := by
  obtain ⟨hbefore, hrefused, hstrict⟩ := h
  rw [← List.append_assoc]
  exact .intro (hcourse.append hbefore) hrefused hstrict

end Sequencer

/-! ### Texts one after the other -/

namespace Token

variable {t : Token} {position p : ℕ} {cs rest after : List Char} {ts us : List Token}

theorem Ends.append (h : t.Ends rest) (hafter : t.Ends after) : t.Ends (rest ++ after) := by
  cases rest with
  | nil => exact hafter
  | cons c rest => exact h

/-- **Texts that are cut one after the other**, if the second one does not go on with the first. -/
theorem Cut.append (h : Cut position cs ts) (hafter : Cut (position + cs.length) after us)
    (hends : ∀ t : Token, t.Ends after) : Cut position (cs ++ after) (ts ++ us) := by
  induction h with
  | nil => exact hafter
  | @blank position c rest ts hblank _ ih =>
    refine .blank hblank (ih ?_)
    rwa [List.length_cons, Nat.add_comm rest.length 1, ← Nat.add_assoc] at hafter
  | @token t rest ts hshaped hover _ ih =>
    rw [List.append_assoc]
    refine .token hshaped (hover.append (hends t)) (ih ?_)
    rwa [List.length_append, ← Nat.add_assoc] at hafter

/-- A token begins before the text is over. -/
theorem position_lt_of_mem_scan {voice : List Char} (ht : t ∈ scan voice) : t.position < voice.length := by
  have hcut := cut_scanFrom 0 voice
  obtain ⟨before, after, hvoice, hposition, -⟩ := hcut.stands t ht
  have hlength := List.length_pos_of_ne_nil (hcut.shaped t ht).text_ne_nil
  rw [← hvoice, List.length_append, List.length_append]
  omega

/-- **A place where no token reaches over**: each of them is over there or begins there or later. -/
def IsBoundary (voice : List Char) (p : ℕ) : Prop :=
  p ≤ voice.length ∧ ∀ t ∈ scan voice, t.position + t.text.length ≤ p ∨ p ≤ t.position

end Token

/-! ### Rows -/

/-- The word of a segment, as a token at some position. -/
def Segment.token? (position : ℕ) : Segment → Option Token
  | .blank _ => none
  | .word w => some (w.token position)

/-- **A row that a text is**, with few enough digits in each word. -/
structure Legible (row : List Segment) (voice : List Char) : Prop where
  spells : Spells row voice
  digits : ∀ w ∈ row.filterMap Segment.word?, w.digits.length ≤ Token.digitLimit

section Legible

variable {row left right : List Segment} {voice u v : List Char} {t : Token} {w : Word} {position p : ℕ}

theorem Spells.append (h : Spells left u) (h' : Spells right v) : Spells (left ++ right) (u ++ v) :=
  ⟨by rw [List.flatMap_append, h.text, h'.text], by
    intro segment hsegment
    rcases List.mem_append.1 hsegment with hmem | hmem
    · exact h.sound segment hmem
    · exact h'.sound segment hmem⟩

theorem Legible.append (h : Legible left u) (h' : Legible right v) : Legible (left ++ right) (u ++ v) := by
  refine ⟨h.spells.append h'.spells, fun w hw => ?_⟩
  rw [List.filterMap_append, List.mem_append] at hw
  exact hw.elim (h.digits w) (h'.digits w)

theorem Legible.of_append (h : Legible (left ++ right) voice) :
    ∃ u v, u ++ v = voice ∧ Legible left u ∧ Legible right v := by
  refine ⟨left.flatMap Segment.text, right.flatMap Segment.text, ?_, ⟨⟨rfl, ?_⟩, ?_⟩, ⟨rfl, ?_⟩, ?_⟩
  · rw [← List.flatMap_append, h.spells.text]
  · exact fun segment hmem => h.spells.sound segment (List.mem_append_left _ hmem)
  · exact fun w hw => h.digits w (by rw [List.filterMap_append]; exact List.mem_append_left _ hw)
  · exact fun segment hmem => h.spells.sound segment (List.mem_append_right _ hmem)
  · exact fun w hw => h.digits w (by rw [List.filterMap_append]; exact List.mem_append_right _ hw)

/-- **The tokens of a text that is a row** are the words of the row. -/
theorem Spells.map_word_scanFrom (h : Spells row voice) (position : ℕ) :
    (Token.scanFrom position voice).map Token.word = row.filterMap Segment.word? := by
  obtain ⟨ts, hcut, -, hwords⟩ := h.exists_cut position
  rw [← hcut.eq_scanFrom, hwords]

/-- The word of a token is one of the row. -/
theorem Spells.word_mem (h : Spells row voice) (ht : t ∈ Token.scanFrom position voice) :
    t.word ∈ row.filterMap Segment.word? := by
  rw [← h.map_word_scanFrom position]
  exact List.mem_map_of_mem ht

/-- The tokens of two rows one after the other. -/
theorem Spells.scanFrom_append (h : Spells right v) (u : List Char) (position : ℕ) :
    Token.scanFrom position (u ++ v) =
      Token.scanFrom position u ++ Token.scanFrom (position + u.length) v :=
  ((Token.cut_scanFrom position u).append (Token.cut_scanFrom _ v) h.ends).eq_scanFrom.symm

theorem Spells.scan_append (h : Spells right v) (u : List Char) :
    Token.scan (u ++ v) = Token.scan u ++ Token.scanFrom u.length v := by
  have happend := h.scanFrom_append u 0
  rwa [Nat.zero_add] at happend

/-- **The token of the first segment** of a row is scanned first. -/
theorem Spells.scanFrom_cons {segment : Segment} (hsound : segment.Sound) (h : Spells right v)
    (position : ℕ) : Token.scanFrom position (segment.text ++ v) =
      (segment.token? position).toList ++ Token.scanFrom (position + segment.text.length) v := by
  cases segment with
  | blank c =>
    show Token.scanFrom position (c :: v) = Token.scanFrom (position + 1) v
    have hblank : isBlank c = true := hsound
    rw [Token.scanFrom, if_pos hblank]
  | word w =>
    have hw : w.Sound := hsound
    have htext : (w.token position).text = w.text := Token.text_eq _
    have hcut := Token.Cut.token (hw.shaped position) (h.ends _)
      (Token.cut_scanFrom ((w.token position).position + (w.token position).text.length) v)
    rw [htext] at hcut
    exact hcut.eq_scanFrom.symm

/-- The part of a row that stands before a place. -/
theorem Spells.exists_take (h : Spells row voice) (hp : p ≤ voice.length) (position : ℕ)
    (hover : ∀ t ∈ Token.scanFrom position voice,
      t.position + t.text.length ≤ position + p ∨ position + p ≤ t.position) :
    ∃ left right, row = left ++ right ∧ left.flatMap Segment.text = voice.take p := by
  induction row generalizing voice position p with
  | nil =>
    obtain rfl : [] = voice := h.text
    exact ⟨[], [], rfl, by simp⟩
  | cons segment row ih =>
    obtain ⟨hsound, rest, rfl, hrest⟩ := spells_cons.1 h
    rw [hrest.scanFrom_cons hsound, List.forall_mem_append] at hover
    obtain ⟨hfirst, hlater⟩ := hover
    rcases Nat.eq_zero_or_pos p with rfl | hpos
    · exact ⟨[], segment :: row, rfl, rfl⟩
    -- the first segment stands before the place, since it does not reach over it
    have hlength : segment.text.length ≤ p := by
      cases segment with
      | blank c => exact hpos
      | word w =>
        have hplace := hfirst (w.token position) (by simp [Segment.token?])
        rw [Token.text_eq] at hplace
        have hplace : position + w.text.length ≤ position + p ∨ position + p ≤ position := hplace
        show w.text.length ≤ p
        omega
    rw [List.length_append] at hp
    have hrest' : p - segment.text.length ≤ rest.length := by omega
    obtain ⟨left, right, rfl, hleft⟩ := ih hrest hrest' (position + segment.text.length) fun t ht => by
      have := hlater t ht
      omega
    refine ⟨segment :: left, right, rfl, ?_⟩
    rw [List.flatMap_cons, hleft, List.take_append, List.take_of_length_le hlength]

/-- Where the word of a token stands in a row. -/
theorem Spells.exists_at (h : Spells row voice) (ht : t ∈ Token.scanFrom position voice) :
    ∃ left right, row = left ++ .word t.word :: right ∧
      position + (left.flatMap Segment.text).length = t.position := by
  induction row generalizing voice position with
  | nil =>
    obtain rfl : [] = voice := h.text
    rw [Token.scanFrom] at ht
    cases ht
  | cons segment row ih =>
    obtain ⟨hsound, rest, rfl, hrest⟩ := spells_cons.1 h
    rw [hrest.scanFrom_cons hsound, List.mem_append] at ht
    rcases ht with ht | ht
    · cases segment with
      | blank c => cases ht
      | word w =>
        obtain rfl : t = w.token position := by simpa [Segment.token?] using ht
        exact ⟨[], row, rfl, rfl⟩
    · obtain ⟨left, right, rfl, hplace⟩ := ih hrest ht
      refine ⟨segment :: left, right, rfl, ?_⟩
      rw [List.flatMap_cons, List.length_append, ← Nat.add_assoc, hplace]

/-- **A row can be taken apart** where no token reaches over. -/
theorem Legible.split (h : Legible row voice) (hp : Token.IsBoundary voice p) : ∃ left right,
    row = left ++ right ∧ Legible left (voice.take p) ∧ Legible right (voice.drop p) := by
  obtain ⟨left, right, rfl, hleft⟩ := h.spells.exists_take hp.1 0 (by simpa [Token.scan] using hp.2)
  obtain ⟨u, v, huv, hu, hv⟩ := h.of_append
  obtain rfl : voice.take p = u := by rw [← hleft, hu.spells.text]
  obtain rfl : voice.drop p = v := by
    rw [← List.append_cancel_left_eq (voice.take p), List.take_append_drop, huv]
  exact ⟨left, right, rfl, hu, hv⟩

/-- **A row can be taken apart** around a token. -/
theorem Legible.split_at (h : Legible row voice) (ht : t ∈ Token.scan voice) : ∃ left right u v,
    row = left ++ .word t.word :: right ∧ voice = u ++ (t.text ++ v) ∧ u.length = t.position ∧
      Legible left u ∧ Legible right v := by
  obtain ⟨left, right, rfl, hplace⟩ := h.spells.exists_at ht
  obtain ⟨u, rest, rfl, hu, hrest⟩ := h.of_append
  obtain ⟨w, v, rfl, hw, hv⟩ := (show Legible ([.word t.word] ++ right) rest from hrest).of_append
  have htext : t.text = w := by
    rw [← hw.spells.text, Token.text_eq]
    exact (List.append_nil _).symm
  refine ⟨left, right, u, v, rfl, by rw [htext], ?_, hu, hv⟩
  rw [← hu.spells.text, ← hplace, Nat.zero_add]

/-- A word by itself. -/
theorem Word.Sound.legible (hw : w.Sound) (hdigits : w.digits.length ≤ Token.digitLimit) :
    Legible [.word w] w.text := by
  refine ⟨⟨List.append_nil _, fun segment hsegment => ?_⟩, fun other hother => ?_⟩
  · obtain rfl := List.mem_singleton.1 hsegment
    exact hw
  · obtain rfl : other = w := by simpa [Segment.word?] using hother
    exact hdigits

/-- The tokens of a legible text can be read. -/
theorem Legible.isReadable (h : Legible row voice) (position : ℕ) :
    ∀ t ∈ Token.scanFrom position voice, t.isReadable = true :=
  fun t ht => decide_eq_true (h.digits t.word (h.spells.word_mem ht))

end Legible

/-! ### What rows give -/

namespace Track

open Sequencer

variable {α : Type} [Scalar α] {policy : ErrorPolicy} {track : Option ℤ} {voice : List Char}
  {row left right : List Segment} {s mid last : Sequencer α} {notes later : Track α}

/-- **What the words of a row give**, from a state on. -/
def Gives (s : Sequencer α) (row : List Segment) (last : Sequencer α) (notes : Track α) : Prop :=
  Course .strict s (row.filterMap (Segment.token? 0)) last notes

theorem Gives.append (h : Gives s left mid notes) (h' : Gives mid right last later) :
    Gives s (left ++ right) last (notes ++ later) := by
  unfold Gives
  rw [List.filterMap_append]
  exact Course.append h h'

theorem Gives.split (h : Gives s (left ++ right) last notes) : ∃ mid first later,
    Gives s left mid first ∧ Gives mid right last later ∧ notes = first ++ later := by
  unfold Gives at h
  rw [List.filterMap_append] at h
  exact Course.split h

/-- What a word gives before the others. -/
theorem gives_cons_word {w : Word} : Gives s (.word w :: row) last notes ↔ ∃ after n later,
    s.step (w.token 0) = .ok (after, n) ∧ Gives after row last later ∧ notes = n.toList ++ later := by
  constructor
  · intro h
    cases (h : Course .strict s (w.token 0 :: row.filterMap (Segment.token? 0)) last notes) with
    | step hstep h => exact ⟨_, _, _, hstep, h, rfl⟩
    | skip hlenient => cases hlenient
  · rintro ⟨after, n, later, hstep, h, rfl⟩
    exact Course.step hstep h

omit [Scalar α] in
/-- A voice with too many digits in a token is not read. -/
theorem isReadable_of_tokens_ok {ts : List Token}
    (h : (tokens voice : Except (Fault α) (List Token)) = .ok ts) :
    ∀ t ∈ Token.scan voice, t.isReadable = true := by
  unfold tokens at h
  split at h
  · cases h
  · simpa using ‹(Token.scan voice).find? (!·.isReadable) = none›

theorem read_eq_ok_iff_course : (read policy track voice : Run α (Track α)).result = .ok notes ↔
    (∀ t ∈ Token.scan voice, t.isReadable = true) ∧
      ∃ last, Course policy.mode start (Token.scan voice) last notes := by
  constructor
  · intro h
    obtain ⟨ts, hts, -⟩ := Run.exists_of_bind_ok h
    have hread := isReadable_of_tokens_ok hts
    refine ⟨hread, ?_⟩
    rw [result_read hread] at h
    obtain ⟨last, given, hcourse⟩ | ⟨t, refusal, hstops⟩ :=
      course_or_stops policy.mode (start : Sequencer α) (Token.scan voice)
    · rw [result_play_of_course hcourse] at h
      cases h
      exact ⟨last, hcourse⟩
    · rw [result_play_of_stops hstops] at h
      cases h
  · rintro ⟨hread, last, hcourse⟩
    rw [result_read hread, result_play_of_course hcourse]

/-- The words of a row are its tokens, whatever their places. -/
theorem map_word_filterMap_token? (row : List Segment) :
    (row.filterMap (Segment.token? 0)).map Token.word = row.filterMap Segment.word? := by
  rw [List.map_filterMap]
  congr 1
  funext segment
  cases segment <;> rfl

theorem Gives.course_scan (h : Gives s row last notes) (hrow : Legible row voice) (position : ℕ) :
    Course .strict s (Token.scanFrom position voice) last notes :=
  Course.of_words h (by rw [map_word_filterMap_token?, hrow.spells.map_word_scanFrom])

/-- **What a strict reading gives** is what the row gives that the voice is. -/
theorem read_eq_ok_iff (hmode : policy.mode = .strict) :
    (read policy track voice : Run α (Track α)).result = .ok notes ↔
      ∃ row, Legible row voice ∧ ∃ last, Gives start row last notes := by
  rw [read_eq_ok_iff_course, hmode]
  constructor
  · rintro ⟨hread, last, hcourse⟩
    obtain ⟨row, hspells, hwords⟩ :=
      (Token.cut_scanFrom 0 voice).exists_spells (hcourse.flaw?_eq_none ready_start)
    refine ⟨row, ⟨hspells, fun w hw => ?_⟩, last, hcourse.of_words ?_⟩
    · rw [hwords] at hw
      obtain ⟨t, ht, rfl⟩ := List.mem_map.1 hw
      exact of_decide_eq_true (hread t ht)
    · rw [map_word_filterMap_token?, hwords]
      rfl
  · rintro ⟨row, hrow, last, hgives⟩
    exact ⟨hrow.isReadable 0, last, hgives.course_scan hrow 0⟩

/-- **A voice that is read strictly in any arithmetic** is read in exact arithmetic. -/
theorem exists_read_exact (hmode : policy.mode = .strict)
    (hread : (read policy track voice : Run α (Track α)).result = .ok notes) :
    ∃ exact : Track ℝ, (read policy track voice).result = .ok exact := by
  obtain ⟨hdigits, _, hcourse⟩ := read_eq_ok_iff_course.1 hread
  rw [hmode] at hcourse
  have hsound := hcourse.flaw?_eq_none ready_start
  obtain ⟨last, notes, hexact⟩ : ∃ last notes, Course policy.mode (start : Sequencer ℝ) (Token.scan voice)
      last notes := (exists_course_iff ready_start).2 fun _ => hsound
  exact ⟨notes, read_eq_ok_iff_course.2 ⟨hdigits, last, hexact⟩⟩

/-- **A strict reading around a token**: what comes before it, the step of the token, and what comes
after. -/
theorem exists_around (hmode : policy.mode = .strict)
    (hread : (read policy track voice : Run α (Track α)).result = .ok notes) {t : Token}
    (ht : t ∈ Token.scan voice) : ∃ u v left right mid earlier after n last later,
      voice = u ++ (t.text ++ v) ∧ u.length = t.position ∧ Legible left u ∧
      Legible [.word t.word] t.text ∧ Legible right v ∧ Gives (start : Sequencer α) left mid earlier ∧
      mid.step t = .ok (after, n) ∧ Gives after right last later ∧
      notes = earlier ++ (n.toList ++ later) := by
  obtain ⟨row, hrow, last, hgives⟩ := (read_eq_ok_iff hmode).1 hread
  obtain ⟨left, right, u, v, rfl, hvoice, hplace, hu, hv⟩ := hrow.split_at ht
  obtain ⟨mid, earlier, rest, hearlier, hrest, rfl⟩ := hgives.split
  obtain ⟨after, n, later, hstep, hlater, rfl⟩ := gives_cons_word.1 hrest
  have hmem : Segment.word t.word ∈ left ++ .word t.word :: right := by simp
  have hword : Legible [.word t.word] t.text := by
    rw [Token.text_eq]
    exact Word.Sound.legible (hrow.spells.sound _ hmem)
      (hrow.digits _ (List.mem_filterMap.2 ⟨_, hmem, rfl⟩))
  have hsame : mid.step (t.word.token 0) = mid.step t := step_congr rfl
  exact ⟨u, v, left, right, mid, earlier, after, n, last, later, hvoice, hplace, hu, hword, hv, hearlier,
    hsame ▸ hstep, hlater, rfl⟩

/-- **A strict reading around a boundary.** -/
theorem exists_halves (hmode : policy.mode = .strict)
    (hread : (read policy track voice : Run α (Track α)).result = .ok notes) {p : ℕ}
    (hp : Token.IsBoundary voice p) : ∃ left right mid earlier last later,
      Legible left (voice.take p) ∧ Legible right (voice.drop p) ∧
      Gives (start : Sequencer α) left mid earlier ∧ Gives mid right last later ∧
      notes = earlier ++ later := by
  obtain ⟨row, hrow, last, hgives⟩ := (read_eq_ok_iff hmode).1 hread
  obtain ⟨left, right, rfl, hleft, hright⟩ := hrow.split hp
  obtain ⟨mid, earlier, later, hearlier, hlater, rfl⟩ := hgives.split
  exact ⟨left, right, mid, earlier, last, later, hleft, hright, hearlier, hlater, rfl⟩

end Track

end Polyphony
