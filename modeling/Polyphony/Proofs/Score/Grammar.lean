import Mathlib
import Polyphony.Proofs.Score.Course
import Polyphony.Proofs.Score.Token

/-!
# The words of the notation

What a strict reading accepts, as a language.

* `Word`, `Word.Sound`: the words; `Spells`: a text as a row of words and blanks, in any order.
* `Token.flaw?_eq_none_iff`: the words are what the sequencer finds no flaw in.
* `Spells.unique`: **a text is such a row in one way at most**, for no word can be continued by another
  one (`Spells.ends`).
* `Spells.exists_cut`, `Token.Cut.exists_spells`: the words of a row are the tokens that are scanned.
* `Track.read_strict`: a strict reading finds a flaw exactly if the voice is no such row, and otherwise
  gives one note for each word that names a note.
-/

namespace Polyphony

open Text

/-- **A word**: a command, digits and a dot. -/
structure Word where
  command : List Char
  digits : List Char
  dotted : Bool

namespace Word

def text (w : Word) : List Char := w.command ++ (w.digits ++ Token.dot w.dotted)

/-- **The commands and the digits that they take.** -/
inductive Form : List Char → List Char → Prop
  | setting {command digits : List Char} : command ∈ [['o'], ['v']] → digits ≠ [] →
      Form command digits
  | positive {command digits : List Char} : command ∈ [['t'], ['l']] → digits ≠ [] →
      0 < ofDigits digits → Form command digits
  | free {command digits : List Char} : command ∈ [['>'], ['<'], ['&']] → Form command digits
  | note {command digits : List Char} : command ∈ Pitch.names →
      (digits = [] ∨ 0 < ofDigits digits) → Form command digits

/-- **A word of the notation**, with or without a dot. -/
structure Sound (w : Word) : Prop where
  form : Form w.command w.digits
  digits : ∀ d ∈ w.digits, isDigit d = true

/-- The word as a token, at some position. -/
def token (w : Word) (position : ℕ) : Token := ⟨w.command, w.digits, w.dotted, position⟩

end Word

/-- A part of a text: a blank, or a word. -/
inductive Segment where
  | blank (c : Char)
  | word (w : Word)

namespace Segment

def text : Segment → List Char
  | blank c => [c]
  | word w => w.text

def Sound : Segment → Prop
  | blank c => isBlank c = true
  | word w => w.Sound

def word? : Segment → Option Word
  | blank _ => none
  | word w => some w

end Segment

/-- **A text as a row of words and blanks.** -/
structure Spells (segments : List Segment) (voice : List Char) : Prop where
  text : segments.flatMap Segment.text = voice
  sound : ∀ segment ∈ segments, segment.Sound

/-! ### Words and flaws -/

namespace Token

variable {t : Token}

def word (t : Token) : Word := ⟨t.command, t.digits, t.dotted⟩

theorem value?_eq_none_iff : t.value? = none ↔ t.digits = [] := by
  unfold value?
  cases t.digits <;> simp

theorem value?_eq_zero_iff : t.value? = some 0 ↔ ¬ (t.digits = [] ∨ 0 < ofDigits t.digits) := by
  unfold value?
  cases t.digits <;> simp

/-- **The words are what no flaw is found in.** -/
theorem flaw?_eq_none_iff : t.flaw? = none ↔ Word.Form t.command t.digits := by
  constructor
  · intro h
    unfold flaw? at h
    split at h
    case h_1 hc | h_4 hc =>
      rw [hc]
      refine .setting (by simp) fun hnil => ?_
      simp [value?_eq_none_iff.2 hnil] at h
    case h_2 hc | h_3 hc =>
      rw [hc]
      have hsome : t.value? ≠ none := by
        intro hnone
        simp [hnone] at h
      have hzero : t.value? ≠ some 0 := by
        intro hzero
        simp [hzero] at h
      rw [Ne, value?_eq_none_iff] at hsome
      rw [Ne, value?_eq_zero_iff, not_not, or_iff_right hsome] at hzero
      exact .positive (by simp) hsome hzero
    case h_5 hc | h_6 hc | h_7 hc =>
      rw [hc]
      exact .free (by simp)
    case h_8 => cases h
    case h_9 =>
      split at h
      · refine .note ‹_› ?_
        by_contra hzero
        rw [if_pos (value?_eq_zero_iff.2 hzero)] at h
        cases h
      · cases h
  · intro h
    cases h with
    | setting hc hne =>
      have hsome : t.value? ≠ none := value?_eq_none_iff.not.2 hne
      simp only [List.mem_cons, List.not_mem_nil, or_false] at hc
      rcases hc with hc | hc <;> simp [flaw?, hc, hsome]
    | positive hc hne hpos =>
      have hsome : t.value? ≠ none := value?_eq_none_iff.not.2 hne
      have hzero : t.value? ≠ some 0 := fun hzero => value?_eq_zero_iff.1 hzero (.inr hpos)
      simp only [List.mem_cons, List.not_mem_nil, or_false] at hc
      rcases hc with hc | hc <;> simp [flaw?, hc, hsome, hzero]
    | free hc =>
      simp only [List.mem_cons, List.not_mem_nil, or_false] at hc
      rcases hc with hc | hc | hc <;> simp [flaw?, hc]
    | note hc hpos =>
      have hdisjoint : ∀ command ∈ [['o'], ['t'], ['l'], ['v'], ['>'], ['<'], ['&'], []],
          command ∉ Pitch.names := by decide
      have hother : ∀ command ∈ [['o'], ['t'], ['l'], ['v'], ['>'], ['<'], ['&'], []],
          t.command ≠ command := fun command hcommand heq => hdisjoint command hcommand (heq ▸ hc)
      have hzero : t.value? ≠ some 0 := fun hzero => value?_eq_zero_iff.1 hzero hpos
      rw [Sequencer.flaw?_of_name (hother _ (by simp)) (hother _ (by simp)) (hother _ (by simp))
        (hother _ (by simp)) (hother _ (by simp)) (hother _ (by simp)) (hother _ (by simp))
        (hother _ (by simp)), if_pos hc, if_neg hzero]

end Token

/-! ### Where words end -/

/-- A character that begins words: it adds nothing to what stands before it. -/
def opens (c : Char) : Bool :=
  !isDigit c && !isBlank c && c != '.' && c != '+' && c != '-'

/-- A command begins with such a character, and at most a sign follows. -/
def Word.isOpening : List Char → Bool
  | c :: signs => opens c && (signs == [] || signs == ['+'] || signs == ['-'])
  | [] => false

theorem Word.Form.isOpening {command digits : List Char} (h : Form command digits) :
    Word.isOpening command = true := by
  have hall : ∀ command ∈ [['o'], ['v']] ++ [['t'], ['l']] ++ [['>'], ['<'], ['&']] ++ Pitch.names,
      Word.isOpening command = true := by decide +kernel
  refine hall command ?_
  simp only [List.mem_append]
  cases h with
  | setting hc => exact .inl (.inl (.inl hc))
  | positive hc => exact .inl (.inl (.inr hc))
  | free hc => exact .inl (.inr hc)
  | note hc => exact .inr hc

theorem Word.Form.exists_cons {command digits : List Char} (h : Form command digits) :
    ∃ c signs, command = c :: signs ∧ opens c = true ∧ Token.IsCommand command := by
  have hplain := h.isOpening
  cases command with
  | nil => cases hplain
  | cons c signs =>
    simp only [Word.isOpening, Bool.and_eq_true, Bool.or_eq_true, beq_iff_eq] at hplain
    obtain ⟨hopens, hsigns⟩ := hplain
    have hc := hopens
    simp only [opens, Bool.and_eq_true, Bool.not_eq_true'] at hc
    refine ⟨c, signs, rfl, hopens, ?_⟩
    rcases hsigns with (rfl | rfl) | rfl
    · exact .plain hc.1.1.1.1 hc.1.1.1.2
    · exact .signed hc.1.1.1.1 hc.1.1.1.2 (.inl rfl)
    · exact .signed hc.1.1.1.1 hc.1.1.1.2 (.inr rfl)

namespace Word

variable {w : Word}

theorem Sound.shaped (h : w.Sound) (position : ℕ) : (w.token position).Shaped := by
  obtain ⟨c, signs, hcommand, -, hshape⟩ := h.form.exists_cons
  exact ⟨hshape, h.digits, fun hnil => by
    rw [show (w.token position).command = c :: signs from hcommand] at hnil
    cases hnil⟩

theorem Sound.exists_text (h : w.Sound) : ∃ c cs, w.text = c :: cs ∧ opens c = true := by
  obtain ⟨c, signs, hcommand, hopens, -⟩ := h.form.exists_cons
  exact ⟨c, signs ++ (w.digits ++ Token.dot w.dotted), by rw [text, hcommand]; rfl, hopens⟩

end Word

theorem not_isExtendedBy_of_opens {t : Token} {c : Char} (h : opens c = true) :
    ¬ t.IsExtendedBy c := by
  simp only [opens, Bool.and_eq_true, Bool.not_eq_true', bne_iff_ne] at h
  obtain ⟨⟨⟨⟨hdigit, -⟩, hdot⟩, hplus⟩, hminus⟩ := h
  rintro ⟨-, hc | hc | ⟨-, -, hc | hc⟩⟩
  · exact hdot hc
  · rw [hdigit] at hc
    cases hc
  · exact hplus hc
  · exact hminus hc

section Spells

variable {voice : List Char} {segment : Segment} {segments others : List Segment} {w : Word}

theorem spells_cons : Spells (segment :: segments) voice ↔
    segment.Sound ∧ ∃ rest, segment.text ++ rest = voice ∧ Spells segments rest := by
  constructor
  · rintro ⟨rfl, hsound⟩
    obtain ⟨hfirst, hrest⟩ := List.forall_mem_cons.1 hsound
    exact ⟨hfirst, _, rfl, rfl, hrest⟩
  · rintro ⟨hfirst, rest, rfl, rfl, hrest⟩
    exact ⟨rfl, List.forall_mem_cons.2 ⟨hfirst, hrest⟩⟩

/-- **No token reaches into a row** of words and blanks that comes after it. -/
theorem Spells.ends (h : Spells segments voice) (t : Token) : t.Ends voice := by
  cases segments with
  | nil =>
    obtain rfl : [] = voice := h.text
    exact Token.ends_nil
  | cons segment segments =>
    obtain ⟨hsound, rest, rfl, -⟩ := spells_cons.1 h
    cases segment with
    | blank c => exact Token.ends_blank hsound
    | word w =>
      obtain ⟨c, cs, htext, hopens⟩ := Word.Sound.exists_text hsound
      intro d hd
      rw [show (Segment.word w).text = c :: cs from htext] at hd
      obtain rfl : c = d := by simpa using hd
      exact not_isExtendedBy_of_opens hopens

theorem Segment.Sound.exists_text (h : segment.Sound) : ∃ c cs, segment.text = c :: cs := by
  cases segment with
  | blank c => exact ⟨c, [], rfl⟩
  | word w =>
    obtain ⟨c, cs, htext, -⟩ := Word.Sound.exists_text h
    exact ⟨c, cs, htext⟩

theorem Spells.eq_nil (h : Spells segments []) : segments = [] := by
  cases segments with
  | nil => rfl
  | cons segment segments =>
    obtain ⟨hsound, rest, htext, -⟩ := spells_cons.1 h
    obtain ⟨c, cs, hc⟩ := hsound.exists_text
    rw [hc] at htext
    cases htext

variable {c : Char} {rest : List Char}

/-- A row that begins with a blank. -/
theorem Spells.cons_blank (h : Spells segments (c :: rest)) (hc : isBlank c = true) :
    ∃ later, segments = .blank c :: later ∧ Spells later rest := by
  cases segments with
  | nil => cases h.text
  | cons segment later =>
    obtain ⟨hsound, after, htext, hlater⟩ := spells_cons.1 h
    cases segment with
    | blank d =>
      cases htext
      exact ⟨later, rfl, hlater⟩
    | word w =>
      -- a word begins with no blank
      obtain ⟨d, cs, hw, hopens⟩ := Word.Sound.exists_text hsound
      rw [show (Segment.word w).text = d :: cs from hw] at htext
      cases htext
      simp [opens, hc] at hopens

/-- A row that begins with a word: this is the token that is scanned first. -/
theorem Spells.cons_word (h : Spells segments (c :: rest)) (hc : isBlank c = false) (position : ℕ) :
    ∃ w after later, segments = .word w :: later ∧ w.Sound ∧
      Token.first position c rest = (w.token position, after) ∧ Spells later after := by
  cases segments with
  | nil => cases h.text
  | cons segment later =>
    obtain ⟨hsound, after, htext, hlater⟩ := spells_cons.1 h
    cases segment with
    | blank d =>
      cases htext
      rw [show isBlank c = true from hsound] at hc
      cases hc
    | word w =>
      have hw : w.Sound := hsound
      have hfirst : (w.token position).text ++ after = c :: rest := by
        rw [← htext, Token.text_eq]
        rfl
      exact ⟨w, after, later, rfl, hw, Token.first_eq (hw.shaped position) (hlater.ends _) hfirst,
        hlater⟩

/-- **A text is a row of words and blanks in one way at most.** -/
theorem Spells.unique (h : Spells segments voice) (h' : Spells others voice) :
    others = segments := by
  induction segments generalizing others voice with
  | nil =>
    obtain rfl : [] = voice := h.text
    exact h'.eq_nil
  | cons segment segments ih =>
    cases voice with
    | nil => cases h.eq_nil
    | cons c rest =>
      cases hc : isBlank c with
      | true =>
        obtain ⟨later, hcons, hlater⟩ := h.cons_blank hc
        cases hcons
        obtain ⟨later', rfl, hlater'⟩ := h'.cons_blank hc
        rw [ih hlater hlater']
      | false =>
        -- both rows begin with the token that is scanned first
        obtain ⟨w, after, later, hcons, -, hfirst, hlater⟩ := h.cons_word hc 0
        cases hcons
        obtain ⟨w', after', later', rfl, -, hfirst', hlater'⟩ := h'.cons_word hc 0
        rw [hfirst] at hfirst'
        obtain ⟨hw, rfl⟩ := Prod.mk.inj hfirst'
        obtain rfl : w = w' := congrArg Token.word hw
        rw [ih hlater hlater']

/-- **The words of a row are the tokens that are scanned**, and none of them is flawed. -/
theorem Spells.exists_cut (h : Spells segments voice) (position : ℕ) :
    ∃ ts, Token.Cut position voice ts ∧ (∀ t ∈ ts, t.flaw? = none) ∧
      ts.map Token.word = segments.filterMap Segment.word? := by
  induction segments generalizing voice position with
  | nil =>
    obtain rfl : [] = voice := h.text
    exact ⟨[], .nil, fun t ht => absurd ht List.not_mem_nil, rfl⟩
  | cons segment segments ih =>
    obtain ⟨hsound, rest, rfl, hrest⟩ := spells_cons.1 h
    cases segment with
    | blank c =>
      obtain ⟨ts, hcut, hflaws, hwords⟩ := ih hrest (position + 1)
      exact ⟨ts, .blank hsound hcut, hflaws, hwords⟩
    | word w =>
      have hw : w.Sound := hsound
      set t := w.token position
      obtain ⟨ts, hcut, hflaws, hwords⟩ := ih hrest (position + t.text.length)
      have hflaw : t.flaw? = none := Token.flaw?_eq_none_iff.2 hw.form
      refine ⟨t :: ts, ?_, List.forall_mem_cons.2 ⟨hflaw, hflaws⟩, ?_⟩
      · rw [show (Segment.word w).text = t.text from (Token.text_eq t).symm]
        exact Token.Cut.token (hw.shaped position) (hrest.ends t) hcut
      · rw [List.map_cons, hwords]
        rfl

/-- **Tokens without flaws are the words of a row.** -/
theorem Token.Cut.exists_spells {position : ℕ} {ts : List Token} (h : Token.Cut position voice ts)
    (hflaws : ∀ t ∈ ts, t.flaw? = none) :
    ∃ segments, Spells segments voice ∧ segments.filterMap Segment.word? = ts.map Token.word := by
  induction h with
  | nil => exact ⟨[], ⟨rfl, fun s hs => absurd hs List.not_mem_nil⟩, rfl⟩
  | @blank position c rest ts hblank _ ih =>
    obtain ⟨segments, hspells, hwords⟩ := ih hflaws
    exact ⟨.blank c :: segments, spells_cons.2 ⟨hblank, rest, rfl, hspells⟩, hwords⟩
  | @token t rest ts hshaped _ _ ih =>
    obtain ⟨hflaw, hlater⟩ := List.forall_mem_cons.1 hflaws
    obtain ⟨segments, hspells, hwords⟩ := ih hlater
    have hword : t.word.Sound := ⟨Token.flaw?_eq_none_iff.1 hflaw, hshaped.digits⟩
    refine ⟨.word t.word :: segments, spells_cons.2 ⟨hword, rest, ?_, hspells⟩, ?_⟩
    · rw [Token.text_eq]
      rfl
    · rw [List.map_cons, ← hwords]
      rfl

/-- **The rows are the texts without flawed tokens.** -/
theorem exists_spells_iff :
    (∃ segments, Spells segments voice) ↔ ∀ t ∈ Token.scan voice, t.flaw? = none := by
  constructor
  · rintro ⟨segments, h⟩
    obtain ⟨ts, hcut, hflaws, -⟩ := h.exists_cut 0
    rwa [Token.scan, ← hcut.eq_scanFrom]
  · intro hflaws
    obtain ⟨segments, h, -⟩ := (Token.cut_scanFrom 0 voice).exists_spells hflaws
    exact ⟨segments, h⟩

end Spells

/-! ### Strict readings -/

namespace Track

variable {α : Type} [Scalar α]

open Sequencer

/-- **The note of a word**: what the sequencer makes of it in some state. -/
def Sounds (w : Word) (n : Note α) : Prop :=
  ∃ (s : Sequencer α) (f : α) (position : ℕ), s.Reached ∧ Pitch.frequency? w.command = some f ∧
    s.note (w.token position) f = .ok n

/-- The words that name a note. -/
def noteWords (words : List Word) : List Word := words.filter fun w => w.command ∈ Pitch.names

/-- **One note for each word that names one**, in order. -/
theorem sounds_of_course {s last : Sequencer α} {ts : List Token} {notes : List (Note α)}
    (h : Course .strict s ts last notes) (hs : s.Reached) :
    List.Forall₂ Sounds (noteWords (ts.map Token.word)) notes := by
  induction h with
  | nil => exact .nil
  | @step s after last t n ts notes hstep _ ih =>
    have hrest := ih (hs.step hstep)
    have hother : ∀ {command}, t.command = command → command ∉ Pitch.names →
        noteWords ((t :: ts).map Token.word) = noteWords (ts.map Token.word) := by
      rintro command rfl hcommand
      exact List.filter_cons_of_neg (by simp [Token.word, hcommand])
    cases step_cases hstep with
    | octave hc | tempo hc | length hc | volume hc | up hc | down hc | tie hc =>
      rw [hother hc (by decide)]
      exact hrest
    | @note f m hf hm =>
      have hname : t.word.command ∈ Pitch.names := Pitch.mem_names_of_frequency? hf
      rw [noteWords, List.map_cons, List.filter_cons_of_pos (by simpa using hname)]
      exact .cons ⟨s, f, t.position, hs, hf, hm⟩ hrest
  | skip hlenient => cases hlenient

variable {policy : ErrorPolicy} {voice : List Char}

theorem result_read (hread : ∀ t ∈ Token.scan voice, t.isReadable = true) (policy : ErrorPolicy)
    (track : Option ℤ) : (read policy track voice : Run α (Track α)).result =
      (play policy track start (Token.scan voice)).result := by
  rw [read, Run.result_bind, Run.result_ofExcept, tokens_eq_ok hread]
  rfl

/-- **What a strict reading accepts**, if all digits can be read and no number leaves the range: the
rows of words and blanks, and nothing else. Such a voice is a row in one way only, and its notes are
those of the words that name notes, one for each, in order. -/
theorem read_strict (hmode : policy.mode = .strict) (track : Option ℤ)
    (hread : ∀ t ∈ Token.scan voice, t.isReadable = true)
    (hnumber : ∀ fault,
      (read policy track voice : Run α (Track α)).result ≠ .error (.number fault)) :
    ((∃ fault, (read policy track voice : Run α (Track α)).result = .error (.score fault)) ↔
      ¬ ∃ segments, Spells segments voice) ∧
    ((∃ notes, (read policy track voice : Run α (Track α)).result = .ok notes) ↔
      ∃ segments, Spells segments voice) ∧
    ∀ notes, (read policy track voice : Run α (Track α)).result = .ok notes →
      ∃ segments, Spells segments voice ∧ (∀ others, Spells others voice → others = segments) ∧
        List.Forall₂ Sounds (noteWords (segments.filterMap Segment.word?)) notes := by
  rw [result_read (α := α) hread policy track] at hnumber ⊢
  rcases course_or_stops policy.mode (start : Sequencer α) (Token.scan voice) with
    ⟨last, notes, hcourse⟩ | ⟨t, refusal, hstops⟩
  · -- no token is flawed, and the words of the row are the tokens
    have hresult : (play policy track start (Token.scan voice)).result = .ok notes :=
      result_play_of_course hcourse
    rw [hmode] at hcourse
    have hflaws := hcourse.flaw?_eq_none ready_start
    obtain ⟨segments, hspells, hwords⟩ := (Token.cut_scanFrom 0 voice).exists_spells hflaws
    rw [hresult]
    refine ⟨⟨?_, fun hno => absurd ⟨segments, hspells⟩ hno⟩, ⟨fun _ => ⟨segments, hspells⟩, fun _ =>
      ⟨notes, rfl⟩⟩, ?_⟩
    · rintro ⟨fault, hfault⟩
      cases hfault
    · rintro _ ⟨⟩
      refine ⟨segments, hspells, fun others h => hspells.unique h, ?_⟩
      rw [hwords]
      exact sounds_of_course hcourse .start
  · have hresult : (play policy track start (Token.scan voice)).result =
        .error (refusedAt track t refusal) := result_play_of_stops hstops
    cases refusal with
    | number fault => exact absurd hresult (hnumber fault)
    | flaw flaw =>
      obtain ⟨-, ht, hflaw⟩ := hstops.flaw ready_start
      have hno : ¬ ∃ segments, Spells segments voice := by
        intro hspells
        rw [exists_spells_iff.1 hspells t ht] at hflaw
        cases hflaw
      rw [hresult]
      refine ⟨⟨fun _ => hno, fun _ => ⟨_, rfl⟩⟩, ⟨?_, fun h => absurd h hno⟩, ?_⟩
      · rintro ⟨notes, hnotes⟩
        cases hnotes
      · intro notes hnotes
        cases hnotes

/-- A setting, a blank, a sharp note with a dot, a tie that takes digits, and a rest. -/
theorem read_strict_tie :
    (∀ t ∈ Token.scan ['o', '5', ' ', 'c', '+', '8', '.', '&', '0', 'r'], t.isReadable = true) ∧
    (∀ fault, (read ⟨.strict, none⟩ none ['o', '5', ' ', 'c', '+', '8', '.', '&', '0', 'r'] :
      Run Float (Track Float)).result ≠ .error (.number fault)) ∧
    ∃ (segments : List Segment) (notes : Track Float),
      Spells segments ['o', '5', ' ', 'c', '+', '8', '.', '&', '0', 'r'] ∧ notes.length = 2 ∧
      List.Forall₂ Sounds (noteWords (segments.filterMap Segment.word?)) notes := by
  have hread : ∀ t ∈ Token.scan ['o', '5', ' ', 'c', '+', '8', '.', '&', '0', 'r'],
      t.isReadable = true := by decide +kernel
  have htwo : (read ⟨.strict, none⟩ none ['o', '5', ' ', 'c', '+', '8', '.', '&', '0', 'r'] :
      Run Float (Track Float)).result.toOption.map List.length = some 2 := by decide +kernel
  have hnumber : ∀ fault, (read ⟨.strict, none⟩ none ['o', '5', ' ', 'c', '+', '8', '.', '&', '0',
      'r'] : Run Float (Track Float)).result ≠ .error (.number fault) := by
    intro fault hfault
    rw [hfault] at htwo
    cases htwo
  obtain ⟨-, -, hnotes⟩ := read_strict rfl none hread hnumber
  cases hresult : (read ⟨.strict, none⟩ none ['o', '5', ' ', 'c', '+', '8', '.', '&', '0', 'r'] :
      Run Float (Track Float)).result with
  | error fault =>
    rw [hresult] at htwo
    cases htwo
  | ok notes =>
    obtain ⟨segments, hspells, -, hsounds⟩ := hnotes notes hresult
    rw [hresult] at htwo
    exact ⟨hread, (fun fault hfault => by cases hfault), segments, notes, hspells,
      Option.some.inj htwo, hsounds⟩

end Track

end Polyphony
