import Mathlib
import Polyphony.Proofs.Score.Piece

/-!
# Which voice a warning names

A flaw of a voice is reported with the number of the voice in the text; a note that the instrument
refuses, with the number of the voice among those that have been read, which leaves blank voices out.

* `Score.readBefore`: how many voices are read before the voice of a number in the text.
* `Score.getElem?_of_readVoices`: a track is that of a voice, and its number is how many are read
  before.
* `Score.compile_warnings`: **the two numbers of a voice are the same exactly if no blank voice comes
  before it.**
-/

namespace Polyphony

open Piece Text

variable {α : Type} [Scalar α]

namespace Score

/-- How many voices are read before the voice with a number. -/
def readBefore (voices : List (List Char)) (j : ℕ) : ℕ :=
  ((voices.take j).filter (!·.all isBlank)).length

theorem readBefore_eq_iff {voices : List (List Char)} {j : ℕ} (hj : j ≤ voices.length) :
    readBefore voices j = j ↔ ∀ earlier ∈ voices.take j, earlier.all isBlank = false := by
  have hlength : (voices.take j).length = j := by rw [List.length_take, Nat.min_eq_left hj]
  have hall := List.length_filter_eq_length_iff (p := (!·.all isBlank)) (l := voices.take j)
  rw [hlength] at hall
  rw [readBefore, hall]
  simp

/-- **A track is that of a voice which is not blank**, and its number is how many voices are read
before. The voice itself is read under its number in the text. -/
theorem getElem?_of_readVoices {policy : ErrorPolicy} {voices : List (List Char)} {track : ℕ}
    {tracks : List (Track α)} (h : (readVoices policy track voices).result = .ok tracks) {k : ℕ}
    {notes : Track α} (hk : tracks[k]? = some notes) :
    ∃ j voice, voices[j]? = some voice ∧ voice.all isBlank = false ∧
      (Track.read policy (some ↑(track + j)) voice).result = .ok notes ∧
      k = readBefore voices j := by
  induction voices generalizing track tracks k with
  | nil =>
    cases h
    cases hk
  | cons voice voices ih =>
    simp only [readVoices] at h
    by_cases hblank : voice.all isBlank
    · -- nothing is read, and the later voices keep their places
      rw [if_pos hblank] at h
      obtain ⟨-, -, h⟩ := Run.exists_of_bind_ok h
      obtain ⟨j, v, hv, hsound, hread, hbefore⟩ := ih h hk
      refine ⟨j + 1, v, hv, hsound, ?_, ?_⟩
      · rwa [show track + (j + 1) = track + 1 + j by omega]
      · rw [hbefore, readBefore, readBefore, List.take_succ_cons,
          List.filter_cons_of_neg (by simp [hblank])]
    · rw [if_neg hblank] at h
      obtain ⟨first, hfirst, h⟩ := Run.exists_of_bind_ok h
      obtain ⟨others, hothers, h⟩ := Run.exists_of_bind_ok h
      cases h
      cases k with
      | zero =>
        cases hk
        exact ⟨0, voice, rfl, by simpa using hblank, hfirst, rfl⟩
      | succ k =>
        obtain ⟨j, v, hv, hsound, hread, hbefore⟩ := ih hothers hk
        refine ⟨j + 1, v, hv, hsound, ?_, ?_⟩
        · rwa [show track + (j + 1) = track + 1 + j by omega]
        · rw [hbefore, readBefore, readBefore, List.take_succ_cons,
            List.filter_cons_of_pos (by simp [hblank]), List.length_cons]

end Score

/-! ### Warnings of a compilation -/

namespace Score

variable {performer : Performer α} {play : Play α} {policy : ErrorPolicy} {reels : Reels α}

/-- **What a compilation leaves behind.** -/
theorem mem_trace_compile (hplay : performer.play? = .ok play) {playRests : Bool} {text : String}
    {next : ℕ} {happening : Happening α}
    (h : happening ∈ (compile policy performer playRests text reels next).trace) :
    (∃ fault, happening = .entered (.skipped fault)) ∨
      (∃ tracks calls fate, (read policy text).result = .ok tracks ∧
        Called reels policy play (wanted playRests tracks) calls fate ∧
        ∃ c ∈ calls, happening ∈ c.trace policy) ∨
      ∃ tracks notes finish, happening = .entered (.compiled tracks notes finish) := by
  cases hread : (read policy text : Run α (List (Track α))).result with
  | error fault =>
    rw [compile_of_read_error hplay hread] at h
    exact .inl (mem_trace_readVoices h)
  | ok tracks =>
    obtain ⟨calls, fate, hcalled, hraised, hdone⟩ := compile_eq reels hplay playRests hread next
    cases fate with
    | some fault =>
      rw [hraised fault rfl] at h
      rcases List.mem_append.1 h with h | h
      · exact .inl (mem_trace_readVoices h)
      · exact .inr (.inl ⟨tracks, calls, some fault, rfl, hcalled, List.mem_flatMap.1 h⟩)
    | none =>
      obtain ⟨piece, next', hpiece, -⟩ := hdone rfl
      rw [hpiece] at h
      rcases List.mem_append.1 h with h | h
      · rcases List.mem_append.1 h with h | h
        · exact .inl (mem_trace_readVoices h)
        · exact .inr (.inl ⟨tracks, calls, none, rfl, hcalled, List.mem_flatMap.1 h⟩)
      · exact .inr (.inr ⟨_, _, _, List.mem_singleton.1 h⟩)

/-- **Which voice a warning names.** A warning about a note that the instrument refused names the
voice of the note by the number of voices that are read before it, while the flaws of that voice name
it by its number in the text. These are the same number exactly if no blank voice comes before. -/
theorem compile_warnings (performer : Performer α) (hplay : performer.play? = .ok play)
    (policy : ErrorPolicy) (playRests : Bool) (text : String) (reels : Reels α) (next : ℕ)
    (hown : ∀ frequency length volume next track start fault,
      .entered (.noteSkipped track start fault) ∉ (play frequency length volume reels next).trace)
    {track : ℕ} {start : α} {fault : Fault α}
    (h : .entered (.noteSkipped track start fault) ∈
      (compile policy performer playRests text reels next).trace) :
    ∃ (j : ℕ) (voice : List Char) (notes : Track α) (n : Note α),
      (voices text)[j]? = some voice ∧ voice.all isBlank = false ∧
      (Track.read policy (some ↑j) voice).result = .ok notes ∧ n ∈ notes ∧ n.start = start ∧
      (∃ next, (play n.frequency n.duration n.volume reels next).result = .error fault) ∧
      (∀ happening ∈ (Track.read policy (some ↑j) voice : Run α (Track α)).trace, ∃ t flaw,
        happening = .entered (.skipped (Track.flawAt (some ↑j) t flaw))) ∧
      track = readBefore (voices text) j ∧
      (track = j ↔ ∀ earlier ∈ (voices text).take j, earlier.all isBlank = false) := by
  rcases mem_trace_compile hplay h with ⟨_, hskipped⟩ | ⟨tracks, calls, fate, hread, hcalled, c, hc,
    hcall⟩ | ⟨_, _, _, hcompiled⟩
  · cases hskipped
  · -- the warning is that of a call, and the call is for a note of a track
    obtain ⟨next', hmake⟩ := hcalled.answer_eq c hc
    have hanswer : c.answer = play c.note.frequency c.note.duration c.note.volume reels next' := by
      rw [hmake]
      rfl
    rcases Call.mem_trace hcall with hasked | hmine | ⟨_, hfault, hrefused⟩
    · cases hasked
    · -- the instrument makes no such warning of its own
      rw [hanswer] at hmine
      exact absurd hmine (hown _ _ _ _ _ _ _)
    cases hrefused
    have hwanted : c.place ∈ wanted playRests tracks :=
      hcalled.places_prefix.subset (List.mem_map.2 ⟨c, hc, rfl⟩)
    obtain ⟨notes, hnotes, hmem⟩ := exists_of_mem_wanted hwanted
    obtain ⟨j, voice, hvoice, hsound, hresult, hbefore⟩ := getElem?_of_readVoices hread hnotes
    rw [Nat.zero_add] at hresult
    have hj : j ≤ (voices text).length := (List.getElem?_eq_some_iff.1 hvoice).1.le
    refine ⟨j, voice, notes, c.note, hvoice, hsound, hresult, hmem, rfl, ⟨next', ?_⟩,
      fun happening hhappening => Track.mem_trace_read hhappening, hbefore, ?_⟩
    · rw [← hanswer]
      exact Call.result_of_skipped? hfault
    · have hnumber : c.track = readBefore (voices text) j := hbefore
      rw [hnumber]
      exact readBefore_eq_iff hj
  · cases hcompiled

/-- An instrument that refuses every note. -/
def refusing : Performer Float where
  method := some fun _ _ _ => throw (.told .render "no")
  itself := none
  shown := "refusing"

/-- Whether a warning about a note names the first voice. -/
def namesFirst : Happening Float → Bool
  | .entered (.noteSkipped 0 _ _) => true
  | _ => false

/-- After a blank voice, the note of the second voice is said to be one of the first. -/
theorem exists_warning_of_first : ∃ start fault, .entered (.noteSkipped 0 start fault) ∈
    (compile ⟨.strict, some .lenient⟩ refusing true ",c" #[] 0).trace := by
  have hany : (compile ⟨.strict, some .lenient⟩ refusing true ",c" #[] 0).trace.any namesFirst := by
    decide +kernel
  obtain ⟨happening, hmem, hfirst⟩ := List.any_eq_true.1 hany
  unfold namesFirst at hfirst
  split at hfirst
  · exact ⟨_, _, hmem⟩
  · cases hfirst

theorem compile_warnings_after_blank :
    (∃ play, refusing.play? = .ok play ∧ ∀ frequency length volume next track start fault,
      .entered (.noteSkipped track start fault) ∉ (play frequency length volume #[] next).trace) ∧
    ∃ start fault, .entered (.noteSkipped 0 start fault) ∈
        (compile ⟨.strict, some .lenient⟩ refusing true ",c" #[] 0).trace ∧
      ∃ voice, (voices ",c")[1]? = some voice ∧ 0 = readBefore (voices ",c") 1 := by
  refine ⟨⟨_, rfl, fun _ _ _ _ _ _ _ => List.not_mem_nil⟩, ?_⟩
  obtain ⟨start, fault, hmem⟩ := exists_warning_of_first
  obtain ⟨j, voice, notes, n, hvoice, hsound, -, -, -, -, -, hbefore, -⟩ :=
    compile_warnings refusing rfl ⟨.strict, some .lenient⟩ true ",c" #[] 0
      (fun _ _ _ _ _ _ _ => List.not_mem_nil) hmem
  refine ⟨start, fault, hmem, voice, ?_⟩
  have hvoices : voices ",c" = [[], ['c']] := by decide +kernel
  rw [hvoices] at hvoice hbefore ⊢
  match j with
  | 0 =>
    cases hvoice
    cases hsound
  | 1 => exact ⟨hvoice, hbefore⟩

/-- **A warning can name a blank voice**, which has no notes. -/
theorem warning_names_blank_voice :
    ¬ ∀ (performer : Performer Float) (policy : ErrorPolicy) (playRests : Bool) (text : String)
      (reels : Reels Float) (next track : ℕ) (start : Float) (fault : Fault Float),
      policy.mode = .lenient → .entered (.noteSkipped track start fault) ∈
        (compile policy performer playRests text reels next).trace →
      ∃ voice, (voices text)[track]? = some voice ∧ voice.all isBlank = false := by
  intro h
  obtain ⟨start, fault, hmem⟩ := exists_warning_of_first
  obtain ⟨voice, hvoice, hsound⟩ := h refusing ⟨.strict, some .lenient⟩ true ",c" #[] 0 0 start fault
    rfl hmem
  have hvoices : voices ",c" = [[], ['c']] := by decide +kernel
  rw [hvoices] at hvoice
  cases hvoice
  cases hsound

end Score

end Polyphony
