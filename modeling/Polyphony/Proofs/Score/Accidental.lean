import Mathlib
import Polyphony.Proofs.Score.Row

/-!
# Accidentals

A sign written directly after the letter of a note belongs to its token, and the table of the names decides
whether there is such a note.

* `Pitch.mem_names_iff`: the table has every letter with every sign, but no sharp E and no flat F.
* `Token.signed`: the voice with a sign after the letter of a token, and its row (`legible_signed`) or its
  tokens (`scan_signed`).
* `Track.read_signed`: **a strict reading takes the sign unless the table has no such note**; then the note
  keeps its place, its length and its volume, and the other notes are as they were.
* `Track.no_sharp_e`: so not every note can have every accidental.
-/

namespace Polyphony

open Text Sequencer

/-- The letters of the notes. -/
def Pitch.letters : List Char := ['a', 'b', 'c', 'd', 'e', 'f', 'g']

/-- The names that the table leaves out: E sharp and F flat. -/
def Pitch.unnamed : List (List Char) := [['e', '+'], ['f', '-']]

namespace Pitch

variable {letter sign : Char}

/-- **The names with a sign** are all but two. -/
theorem mem_names_iff (hletter : letter ∈ letters) (hsign : sign ∈ ['+', '-']) :
    [letter, sign] ∈ names ↔ [letter, sign] ∉ unnamed := by
  fin_cases hletter <;> fin_cases hsign <;> decide

theorem mem_names_of_letter (hletter : letter ∈ letters) : [letter] ∈ names := by
  fin_cases hletter <;> decide

theorem opens_letter (hletter : letter ∈ letters) : opens letter = true := by
  fin_cases hletter <;> decide

/-- None of the letters names a rest, with a sign or without. -/
theorem isRest_letter (hletter : letter ∈ letters) : isRest [letter, sign] = isRest [letter] := by
  have hplain : isRest [letter] = false := by fin_cases hletter <;> decide
  rw [hplain]
  simp [isRest, restNames]

end Pitch

/-! ### A sign after a letter -/

/-- **The voice with a sign** directly after the first character of a token. -/
def Token.signed (t : Token) (sign : Char) (voice : List Char) : List Char :=
  voice.take (t.position + 1) ++ sign :: voice.drop (t.position + 1)

namespace Token

variable {t : Token} {letter sign : Char} {u v : List Char} {left right : List Segment}

/-- The sign goes into the text of the token. -/
theorem signed_eq (hcommand : t.command = [letter]) (hplace : u.length = t.position) :
    t.signed sign (u ++ (t.text ++ v)) = u ++ ({ t with command := [letter, sign] }.text ++ v) := by
  have htake : (u ++ (t.text ++ v)).take (t.position + 1) = u ++ [letter] := by
    simp [← hplace, text_eq, hcommand, List.take_append]
  have hdrop : (u ++ (t.text ++ v)).drop (t.position + 1) = t.digits ++ dot t.dotted ++ v := by
    simp [← hplace, text_eq, hcommand, List.drop_append]
  rw [signed, htake, hdrop, text_eq]
  simp

/-- **A token with its sign**, where the voice is cut. -/
theorem scan_signed (hcommand : t.command = [letter]) (hletter : letter ∈ Pitch.letters)
    (hsign : sign ∈ ['+', '-']) (hdigits : ∀ d ∈ t.digits, isDigit d = true)
    (hplace : u.length = t.position) (hv : ∀ t : Token, t.Ends v) :
    scan (t.signed sign (u ++ (t.text ++ v))) = scan u ++ { t with command := [letter, sign] } ::
      scanFrom (t.position + { t with command := [letter, sign] }.text.length) v := by
  set signed : Token := { t with command := [letter, sign] }
  have hopens := Pitch.opens_letter hletter
  have hplain := hopens
  simp only [opens, Bool.and_eq_true, Bool.not_eq_true'] at hplain
  have hshaped : signed.Shaped :=
    ⟨.signed hplain.1.1.1.1 hplain.1.1.1.2 (by simpa using hsign), hdigits, fun hnil => by cases hnil⟩
  have hcut : Cut (0 + u.length) (signed.text ++ v)
      (signed :: scanFrom (t.position + signed.text.length) v) := by
    rw [Nat.zero_add, hplace]
    exact .token hshaped (hv signed) (cut_scanFrom _ v)
  -- the letter begins a token, whatever comes before it
  have hstarts : ∀ t : Token, t.Ends (signed.text ++ v) := by
    intro t c hc
    obtain rfl : letter = c := by simpa [text_eq, signed] using hc
    exact not_isExtendedBy_of_opens hopens
  rw [signed_eq hcommand hplace]
  exact ((cut_scanFrom 0 u).append hcut hstarts).eq_scanFrom.symm

end Token

namespace Track

variable {α : Type} [Scalar α] {policy : ErrorPolicy} {track : Option ℤ} {voice : List Char}
  {notes : Track α} {t : Token} {letter sign : Char} {s after : Sequencer α} {n : Option (Note α)}

/-- A token with a sign that the table has no name for is flawed. -/
theorem flaw?_signed (hsign : [letter, sign] ∉ Pitch.names) :
    { t with command := [letter, sign] }.flaw? = some .unknownCommand := by
  rw [flaw?_of_name (by simp) (by simp) (by simp) (by simp) (by simp) (by simp) (by simp) (by simp),
    if_neg hsign]

/-- Whether a frequency can be moved to an octave depends on the octave alone. -/
theorem exists_number_onOctave? {octave : ℤ} {f : α}
    (h : ∃ x, number (Pitch.onOctave? f octave) = .ok x) (g : α) :
    ∃ y, number (Pitch.onOctave? g octave) = .ok y := by
  obtain ⟨x, hx⟩ := h
  unfold Pitch.onOctave? at hx ⊢
  cases hpower : (Scalar.twoToThe? (octave - Pitch.referenceOctave) : Except NumberFault α) with
  | error fault =>
    rw [hpower] at hx
    cases hx
  | ok power => exact ⟨g * power, rfl⟩

/-- **The step of a note that gets a sign** leads to the same state, and the note has another frequency at
most. -/
theorem step_signed (hcommand : t.command = [letter]) (hletter : letter ∈ Pitch.letters)
    (hsign : [letter, sign] ∈ Pitch.names) (h : s.step t = .ok (after, n)) : ∃ m frequency, n = some m ∧
      t.value? ≠ some 0 ∧ s.step { t with command := [letter, sign] } =
        .ok (after, some { m with frequency := frequency }) := by
  obtain ⟨f, m, hf, hnote, rfl, rfl⟩ :=
    exists_note_of_step h (hcommand ▸ Pitch.mem_names_of_letter hletter)
  obtain ⟨g, hg⟩ : ∃ g : α, Pitch.frequency? [letter, sign] = some g := by
    cases hg : (Pitch.frequency? [letter, sign] : Option α) with
    | none => exact absurd hsign ((Pitch.frequency?_eq_none_iff _).1 hg)
    | some g => exact ⟨g, rfl⟩
  have hzero : t.value? ≠ some 0 := by
    intro hzero
    have hdivisor := divisor_ne_zero_of_note hnote
    rw [divisor, hzero] at hdivisor
    exact hdivisor rfl
  -- the octave has its power of two, since the note without a sign has a frequency
  have hplain := note_varied hnote rfl rfl rfl s.octave f
  rw [show ({ s with octave := s.octave } : Sequencer α) = s from rfl, hnote] at hplain
  obtain ⟨frequency, hfrequency⟩ : ∃ frequency, number (Pitch.onOctave? g s.octave) = .ok frequency := by
    refine exists_number_onOctave? (f := f) ?_ g
    cases hf : number (Pitch.onOctave? f s.octave) with
    | error refusal =>
      rw [hf] at hplain
      cases hplain
    | ok x => exact ⟨x, rfl⟩
  have hsigned : s.note { t with command := [letter, sign] } g = .ok { m with frequency := frequency } := by
    have hrest : Pitch.isRest [letter, sign] = Pitch.isRest t.command := by
      rw [hcommand, Pitch.isRest_letter hletter]
    have hvaried := note_varied (u := { t with command := [letter, sign] }) hnote rfl rfl hrest s.octave g
    rw [hfrequency] at hvaried
    exact hvaried
  refine ⟨m, frequency, rfl, hzero, ?_⟩
  rw [step_of_frequency? hg, hsigned]
  rfl

/-- **A sign that the table has a name for** is taken. -/
theorem read_signed_of_mem (hmode : policy.mode = .strict)
    (hread : (read policy track voice : Run α (Track α)).result = .ok notes) (ht : t ∈ Token.scan voice)
    (hcommand : t.command = [letter]) (hletter : letter ∈ Pitch.letters)
    (hsign : [letter, sign] ∈ Pitch.names) : ∃ earlier n later frequency,
      (read policy track (voice.take t.position)).result = .ok earlier ∧ notes = earlier ++ n :: later ∧
      (read policy track (t.signed sign voice)).result =
        .ok (earlier ++ { n with frequency := frequency } :: later) := by
  obtain ⟨u, v, left, right, mid, earlier, after, n, last, later, rfl, hplace, hu, hword, hv, hearlier,
    hstep, hlater, rfl⟩ := exists_around hmode hread ht
  obtain ⟨n, frequency, rfl, hzero, hsigned⟩ := step_signed hcommand hletter hsign hstep
  set signed : Token := { t with command := [letter, sign] }
  -- the token with the sign is a word like the one without
  have hlegible : Legible [.word signed.word] signed.text := by
    rw [Token.text_eq]
    have hform : Word.Form [letter, sign] t.digits :=
      .note hsign (by rwa [Ne, Token.value?_eq_zero_iff, not_not] at hzero)
    have hsound : t.word.Sound := hword.spells.sound _ List.mem_cons_self
    exact Word.Sound.legible ⟨hform, hsound.digits⟩ (hword.digits t.word List.mem_cons_self)
  have hgives : Gives mid (.word signed.word :: right) last ({ n with frequency := frequency } :: later) :=
    gives_cons_word.2 ⟨after, some { n with frequency := frequency }, later,
      (step_congr rfl).trans hsigned, hlater, rfl⟩
  refine ⟨earlier, n, later, frequency, ?_, rfl, ?_⟩
  · rw [← hplace, List.take_left]
    exact (read_eq_ok_iff hmode).2 ⟨left, hu, mid, hearlier⟩
  · rw [Token.signed_eq hcommand hplace]
    exact (read_eq_ok_iff hmode).2
      ⟨left ++ .word signed.word :: right, hu.append (hlegible.append hv), last, hearlier.append hgives⟩

/-- **A sign that the table has no name for** is not. -/
theorem read_signed_of_not_mem (hmode : policy.mode = .strict)
    (hread : (read policy track voice : Run α (Track α)).result = .ok notes) (ht : t ∈ Token.scan voice)
    (hcommand : t.command = [letter]) (hletter : letter ∈ Pitch.letters) (hplus : sign ∈ ['+', '-'])
    (hsign : [letter, sign] ∉ Pitch.names) : (read policy track (t.signed sign voice)).result =
      .error (flawAt track { t with command := [letter, sign] } .unknownCommand : Fault α) := by
  obtain ⟨u, v, left, right, mid, earlier, after, n, last, later, rfl, hplace, hu, hword, hv, hearlier,
    hstep, hlater, rfl⟩ := exists_around hmode hread ht
  set signed : Token := { t with command := [letter, sign] } with hdef
  have hsound : t.word.Sound := hword.spells.sound _ List.mem_cons_self
  have hscan := Token.scan_signed hcommand hletter hplus hsound.digits hplace hv.spells.ends
  rw [← hdef] at hscan
  have hreadable : ∀ u' ∈ Token.scan (t.signed sign (u ++ (t.text ++ v))), u'.isReadable = true := by
    rw [hscan, List.forall_mem_append, List.forall_mem_cons]
    exact ⟨hu.isReadable 0, decide_eq_true (hword.digits t.word List.mem_cons_self), hv.isReadable _⟩
  have hcourse : Course policy.mode (start : Sequencer α) (Token.scan u) mid earlier :=
    hmode ▸ hearlier.course_scan hu 0
  have hrefused : mid.step signed = .error (.flaw .unknownCommand) :=
    (step_flaw_iff (hcourse.ready ready_start).length_pos).2 (flaw?_signed hsign)
  rw [result_read hreadable, hscan]
  exact result_play_of_stops (.intro hcourse hrefused fun _ _ => hmode)

/-- **A sign after the letter of a note**, in a voice that is read strictly. If the table has such a note, the
voice is still read, and no more than the frequency of this one note has changed. If it has none, which is
so of E sharp and F flat, the voice is refused at the token. -/
theorem read_signed (hmode : policy.mode = .strict)
    (hread : (read policy track voice : Run α (Track α)).result = .ok notes) (ht : t ∈ Token.scan voice)
    (hcommand : t.command = [letter]) (hletter : letter ∈ Pitch.letters) (hsign : sign ∈ ['+', '-']) :
    ([letter, sign] ∉ Pitch.unnamed → ∃ earlier n later frequency,
      (read policy track (voice.take t.position)).result = .ok earlier ∧ notes = earlier ++ n :: later ∧
      (read policy track (t.signed sign voice)).result =
        .ok (earlier ++ { n with frequency := frequency } :: later)) ∧
    ([letter, sign] ∈ Pitch.unnamed → (read policy track (t.signed sign voice)).result =
      .error (flawAt track { t with command := [letter, sign] } .unknownCommand : Fault α)) := by
  rw [← Pitch.mem_names_iff hletter hsign]
  refine ⟨read_signed_of_mem hmode hread ht hcommand hletter, fun hunnamed => ?_⟩
  refine read_signed_of_not_mem hmode hread ht hcommand hletter hsign fun hname => ?_
  exact (Pitch.mem_names_iff hletter hsign).1 hname hunnamed

/-- Signs in a voice of two notes: a sharp C is taken, and a sharp E is not. -/
theorem read_signed_c_and_e : ∃ notes : Track Float,
    (read ⟨.strict, none⟩ none ['c', 'e']).result = .ok notes ∧
    (∃ earlier n later frequency, (read ⟨.strict, none⟩ none []).result = .ok earlier ∧
      notes = earlier ++ n :: later ∧ (read ⟨.strict, none⟩ none ['c', '+', 'e']).result =
        .ok (earlier ++ { n with frequency := frequency } :: later)) ∧
    (read ⟨.strict, none⟩ none ['c', 'e', '+']).result =
      .error (flawAt none ⟨['e', '+'], [], false, 1⟩ .unknownCommand : Fault Float) := by
  obtain ⟨notes, hread⟩ : ∃ notes : Track Float,
      (read ⟨.strict, none⟩ none ['c', 'e']).result = .ok notes :=
    Run.exists_of_isOk (by decide +kernel)
  have hscan : Token.scan ['c', 'e'] = [⟨['c'], [], false, 0⟩, ⟨['e'], [], false, 1⟩] := by decide +kernel
  have hfirst : ⟨['c'], [], false, 0⟩ ∈ Token.scan ['c', 'e'] := by simp [hscan]
  have hsecond : ⟨['e'], [], false, 1⟩ ∈ Token.scan ['c', 'e'] := by simp [hscan]
  exact ⟨notes, hread,
    (read_signed rfl hread hfirst rfl (by decide) (by decide : '+' ∈ ['+', '-'])).1 (by decide),
    (read_signed rfl hread hsecond rfl (by decide) (by decide : '+' ∈ ['+', '-'])).2 (by decide)⟩

/-- **Not every note takes a sign**: E does not take the sharp. -/
theorem no_sharp_e : ¬ ∀ (voice : List Char) (notes : Track Float) (t : Token) (letter sign : Char),
    (read ⟨.strict, none⟩ none voice).result = .ok notes → t ∈ Token.scan voice → t.command = [letter] →
    letter ∈ Pitch.letters → sign ∈ ['+', '-'] →
    ∃ notes' : Track Float, (read ⟨.strict, none⟩ none (t.signed sign voice)).result = .ok notes' := by
  intro h
  obtain ⟨notes, hread⟩ : ∃ notes : Track Float, (read ⟨.strict, none⟩ none ['e']).result = .ok notes :=
    Run.exists_of_isOk (by decide +kernel)
  have hsharp : (read ⟨.strict, none⟩ none ['e', '+'] : Run Float (Track Float)).result.isOk = false := by
    decide +kernel
  have ht : ⟨['e'], [], false, 0⟩ ∈ Token.scan ['e'] := by
    rw [show Token.scan ['e'] = [⟨['e'], [], false, 0⟩] by decide +kernel]
    exact List.mem_singleton_self _
  obtain ⟨notes', hread'⟩ := h ['e'] notes _ 'e' '+' hread ht rfl (by decide) (by decide)
  rw [show Token.signed _ '+' ['e'] = ['e', '+'] from rfl] at hread'
  rw [hread'] at hsharp
  cases hsharp

end Track

end Polyphony
