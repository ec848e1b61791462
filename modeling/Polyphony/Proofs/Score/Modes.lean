import Mathlib
import Polyphony.Message
import Polyphony.Proofs.Score.Sequencer
import Polyphony.Proofs.Score.Token

/-!
# Strict and lenient reading

A score is read twice, once in strict and once in lenient mode.

* `Excused`: how the two runs are related. Either neither of them leaves a trace and they end alike,
  or the strict one raises **the very fault that the lenient one skips first**. The relation is kept
  by `>>=` (`Excused.bind`), so it holds of every reading (`readVoices_excused`).
* `Score.complaints`: what is wrong with a text, in reading order: blank voices, and tokens that are
  flawed (`Token.flaw?`).
* `readVoices_lenient`: a lenient reading leaves exactly the complaints behind, and its notes are
  those of the state machine on the tokens that are not flawed.
* `read_modes_agree`: both together.
-/

namespace Polyphony

open Text

variable {α β γ : Type}

/-! ### What is wrong with a text -/

/-- A token that is not refused as flawed. -/
def Token.isSound (t : Token) : Bool := t.flaw?.isNone

/-- What is wrong with the tokens of a voice. -/
def Track.complaints (track : Option ℤ) (ts : List Token) : List (Fault α) :=
  ts.filterMap fun t => t.flaw?.map (Track.flawAt track t)

/-- What is wrong with the voice of a number: it is blank, or some of its tokens are flawed. -/
def Score.complaintsAt (track : ℕ) (voice : List Char) : List (Fault α) :=
  if voice.all isBlank then [Score.emptyTrack track voice]
  else Track.complaints (some ↑track) (Token.scan voice)

/-- What is wrong with voices, the first of which has the number `track`. -/
def Score.complaintsFrom (track : ℕ) (voices : List (List Char)) : List (Fault α) :=
  (voices.zipIdx track).flatMap fun (voice, track) => Score.complaintsAt track voice

/-- **What is wrong with a text**, in reading order. -/
def Score.complaints (text : String) : List (Fault α) := Score.complaintsFrom 0 (Score.voices text)

/-- The trace of skipping faults. -/
def skippedAll (faults : List (Fault α)) : List (Happening α) :=
  faults.map fun fault => .entered (.skipped fault)

theorem skippedAll_append (faults faults' : List (Fault α)) :
    skippedAll (faults ++ faults') = skippedAll faults ++ skippedAll faults' := List.map_append

theorem Score.complaintsFrom_cons (track : ℕ) (voice : List Char) (voices : List (List Char)) :
    (Score.complaintsFrom track (voice :: voices) : List (Fault α)) =
      Score.complaintsAt track voice ++ Score.complaintsFrom (track + 1) voices := rfl

/-- **Every complaint tells its place**: the number of the voice in the text, and the position and
the text of the token, or all of the voice if that is blank. -/
theorem mem_complaints {text : String} {fault : Fault α} (h : fault ∈ Score.complaints text) :
    ∃ (track : ℕ) (voice : List Char), (Score.voices text)[track]? = some voice ∧
      (voice.all isBlank ∧
          fault = .score ⟨.emptyTrack, "", some (.ofList voice), some 0, some ↑track⟩ ∨
        ∃ t ∈ Token.scan voice, ∃ flaw, t.flaw? = some flaw ∧ fault =
          .score ⟨flaw, .ofList t.command, some (.ofList t.text), some ↑t.position, some ↑track⟩) := by
  obtain ⟨⟨voice, track⟩, hv, hf⟩ := List.mem_flatMap.1 h
  refine ⟨track, voice, List.mem_zipIdx_iff_getElem?.1 hv, ?_⟩
  simp only [Score.complaintsAt] at hf
  split at hf
  case isTrue hb => exact .inl ⟨hb, List.mem_singleton.1 hf⟩
  case isFalse =>
    obtain ⟨t, ht, hf⟩ := List.mem_filterMap.1 hf
    obtain ⟨flaw, hflaw, rfl⟩ := Option.map_eq_some_iff.1 hf
    exact .inr ⟨t, ht, flaw, hflaw, rfl⟩

theorem tokens_of_readable {voice : List Char} (h : ∀ t ∈ Token.scan voice, t.isReadable) :
    (Run.ofExcept (Track.tokens voice) : Run α _).result = .ok (Token.scan voice) :=
  Track.tokens_eq_ok h

/-! ### Two runs that differ in the mode -/

/-- **A strict run and the lenient run of the same work.** -/
inductive Excused : Run α β → Run α β → Prop
  | quiet (r : Except (Fault α) β) : Excused ⟨[], r⟩ ⟨[], r⟩
  | raised (fault : Fault α) (rest : List (Happening α)) (r : Except (Fault α) β) :
      Excused ⟨[], .error fault⟩ ⟨.entered (.skipped fault) :: rest, r⟩

theorem Excused.bind {m m' : Run α β} {f f' : β → Run α γ} (h : Excused m m')
    (hf : ∀ b, Excused (f b) (f' b)) : Excused (m >>= f) (m' >>= f') := by
  cases h with
  | quiet r =>
    cases r with
    | error e => exact .quiet (.error e)
    | ok b => rw [Run.bind_ok rfl, Run.bind_ok rfl]; exact hf b
  | raised fault rest r =>
    rw [Run.bind_error rfl]
    cases r with
    | error e => rw [Run.bind_error rfl]; exact .raised fault rest _
    | ok b => rw [Run.bind_ok rfl]; exact .raised fault _ _

theorem Excused.of_quiet {m : Run α β} {r : Except (Fault α) β} (h : Excused m ⟨[], r⟩) :
    m = ⟨[], r⟩ := by
  cases h; rfl

theorem Excused.of_raised {m : Run α β} {fault : Fault α} {rest : List (Happening α)}
    {r : Except (Fault α) β} (h : Excused m ⟨.entered (.skipped fault) :: rest, r⟩) :
    m = ⟨[], .error fault⟩ := by
  cases h; rfl

theorem Excused.pure (b : β) : Excused (pure b : Run α β) (Pure.pure b) := .quiet (.ok b)

variable {p q : ErrorPolicy}

theorem excuse_strict (hp : p.mode = .strict) (fault : Fault α) (entry : Entry α) :
    excuse p fault entry = ⟨[], .error fault⟩ := by
  simp only [excuse, hp]; rfl

theorem excuse_lenient (hq : q.mode = .lenient) (fault : Fault α) (entry : Entry α) :
    excuse q fault entry = ⟨[.entered entry], .ok ()⟩ := by
  simp only [excuse, hq]; rfl

theorem excuse_excused (hp : p.mode = .strict) (hq : q.mode = .lenient) (fault : Fault α) :
    Excused (excuse p fault (.skipped fault)) (excuse q fault (.skipped fault)) := by
  rw [excuse_strict hp, excuse_lenient hq]
  exact .raised fault [] _

variable [Scalar α]

theorem play_excused (hp : p.mode = .strict) (hq : q.mode = .lenient) (track : Option ℤ)
    (s : Sequencer α) (ts : List Token) :
    Excused (Track.play p track s ts) (Track.play q track s ts) := by
  induction ts generalizing s with
  | nil => exact .pure []
  | cons t ts ih =>
    simp only [Track.play]
    split
    · exact (ih _).bind fun notes => .pure _
    · exact ih _
    · exact (excuse_excused hp hq _).bind fun _ => ih _
    · exact .quiet (.error _)

theorem read_excused (hp : p.mode = .strict) (hq : q.mode = .lenient) (track : Option ℤ)
    (voice : List Char) : Excused (Track.read p track voice : Run α _) (Track.read q track voice) :=
  Excused.bind (.quiet (Track.tokens voice)) fun ts => play_excused hp hq track .start ts

theorem readVoices_excused (hp : p.mode = .strict) (hq : q.mode = .lenient)
    (voices : List (List Char)) (track : ℕ) :
    Excused (Score.readVoices p track voices : Run α _) (Score.readVoices q track voices) := by
  induction voices generalizing track with
  | nil => exact .pure []
  | cons voice voices ih =>
    simp only [Score.readVoices]
    split
    · exact (excuse_excused hp hq _).bind fun _ => ih _
    · exact (read_excused hp hq _ voice).bind fun notes => (ih _).bind fun tracks => .pure _

/-! ### What a lenient reading leaves behind -/

/-- **The notes of a voice**: those of the state machine on the tokens that are not flawed. -/
def Track.OfVoice (voice : List Char) (notes : Track α) : Prop :=
  ∃ last, Sequencer.start.run ((Token.scan voice).filter Token.isSound) = .ok (last, notes)

/-- **A flawed token is skipped** and leaves the state alone. -/
theorem play_flawed (hq : q.mode = .lenient) (track : Option ℤ) {s : Sequencer α} {t : Token}
    {flaw : ScoreFlaw} (hstep : s.step t = .error (.flaw flaw)) (ts : List Token) :
    Track.play q track s (t :: ts) =
      ⟨.entered (.skipped (Track.flawAt track t flaw)) :: (Track.play q track s ts).trace,
        (Track.play q track s ts).result⟩ := by
  simp only [Track.play, Sequencer.perform_of_error hstep, excuse_lenient hq]
  exact Run.bind_ok rfl _

theorem play_lenient (hq : q.mode = .lenient) (track : Option ℤ) {s : Sequencer α} (hs : s.Ready)
    (ts : List Token) (hn : ∀ fault, (Track.play q track s ts).result ≠ .error (.number fault)) :
    ∃ last notes, s.run (ts.filter Token.isSound) = .ok (last, notes) ∧
      Track.play q track s ts = ⟨skippedAll (Track.complaints track ts), .ok notes⟩ := by
  induction ts generalizing s with
  | nil => exact ⟨s, [], rfl, rfl⟩
  | cons t ts ih =>
    rcases hstep : s.step t with (flaw | fault) | ⟨after, n⟩
    · have hf := (Sequencer.step_flaw_iff hs.length_pos).1 hstep
      rw [play_flawed hq track hstep] at hn ⊢
      obtain ⟨last, notes, hrun, hplay⟩ := ih hs hn
      refine ⟨last, notes, ?_, ?_⟩
      · simpa [Token.isSound, hf] using hrun
      · simp [hplay, Track.complaints, hf, skippedAll]
    · -- a number out of range would end the lenient run too
      simp only [Track.play, Sequencer.perform_of_error hstep] at hn
      exact absurd rfl (hn fault)
    · have hf := Sequencer.flaw?_of_step_ok hs.length_pos hstep
      have hrest : ∀ fault, (Track.play q track after ts).result ≠ .error (.number fault) := by
        intro fault hr
        refine hn fault ?_
        cases n with
        | none => simpa only [Track.play, Sequencer.perform_of_ok hstep] using hr
        | some n => simp only [Track.play, Sequencer.perform_of_ok hstep, Run.bind_error hr]
      obtain ⟨last, notes, hrun, hplay⟩ := ih (hs.step hstep) hrest
      refine ⟨last, n.toList ++ notes, ?_, ?_⟩
      · simpa [Token.isSound, hf] using Sequencer.run_cons hstep hrun
      · cases n with
        | none => simp [Track.play, Sequencer.perform_of_ok hstep, hplay, Track.complaints, hf]
        | some n =>
          simp only [Track.play, Sequencer.perform_of_ok hstep]
          rw [Run.bind_ok (congrArg Run.result hplay), hplay]
          simp [Track.complaints, hf, pure, Run.pure]

theorem readVoices_lenient (hq : q.mode = .lenient) (voices : List (List Char)) (track : ℕ)
    (hread : ∀ voice ∈ voices, ∀ t ∈ Token.scan voice, t.isReadable)
    (hn : ∀ fault, (Score.readVoices q track voices : Run α _).result ≠ .error (.number fault)) :
    ∃ tracks, List.Forall₂ Track.OfVoice (voices.filter (!·.all isBlank)) tracks ∧
      Score.readVoices q track voices =
        (⟨skippedAll (Score.complaintsFrom track voices), .ok tracks⟩ : Run α _) := by
  induction voices generalizing track with
  | nil => exact ⟨[], .nil, rfl⟩
  | cons voice voices ih =>
    have hread' := fun v hv => hread v (List.mem_cons_of_mem _ hv)
    simp only [Score.readVoices] at hn ⊢
    rw [Score.complaintsFrom_cons, skippedAll_append, Score.complaintsAt]
    by_cases hb : voice.all isBlank
    · -- a blank voice leaves one entry and no notes
      rw [if_pos hb, excuse_lenient hq, Run.bind_ok rfl] at hn ⊢
      obtain ⟨tracks, htracks, hvoices⟩ := ih _ hread' hn
      refine ⟨tracks, by rwa [List.filter_cons_of_neg (by simp [hb])], ?_⟩
      simp [hvoices, hb, skippedAll]
    · rw [if_neg hb] at hn ⊢
      have htokens := tokens_of_readable (α := α) (hread voice List.mem_cons_self)
      have hvoice : ∀ fault,
          (Track.read q (some ↑track) voice : Run α _).result ≠ .error (.number fault) :=
        fun fault hr => hn fault (by rw [Run.bind_error hr])
      rw [Track.read, Run.bind_ok htokens] at hvoice
      obtain ⟨last, notes, hrun, hplay⟩ := play_lenient hq _ Sequencer.ready_start _ hvoice
      have hplayed : Track.read q (some ↑track) voice =
          ⟨skippedAll (Track.complaints (some ↑track) (Token.scan voice)), .ok notes⟩ := by
        rw [Track.read, Run.bind_ok htokens, hplay]; rfl
      rw [hplayed, Run.bind_ok rfl] at hn ⊢
      obtain ⟨tracks, htracks, hvoices⟩ :=
        ih (track + 1) hread' fun fault hr => hn fault (by rw [Run.bind_error hr])
      refine ⟨notes :: tracks, ?_, ?_⟩
      · simpa [List.filter_cons, hb] using ⟨⟨last, hrun⟩, htracks⟩
      · rw [Run.bind_ok (congrArg Run.result hvoices), hvoices]
        simp [hb, pure, Run.pure]

/-- **Strict and lenient reading agree.** Whether a token is refused as flawed depends on the token
alone. A refused token leaves the state as it was, and a lenient reading goes on in it. If all digits
can be read and no number leaves the range, the lenient reading enters exactly what is wrong with the
text, in order, and gives the notes of the state machine on the tokens that are not flawed. The strict
one gives the same notes if nothing is wrong; otherwise it raises the first fault, in the same words
and with its place. -/
theorem read_modes_agree :
    (∀ (s : Sequencer Float) (t : Token) (flaw : ScoreFlaw), s.Reached →
      (s.step t = .error (.flaw flaw) ↔ t.flaw? = some flaw)) ∧
    (∀ (s : Sequencer Float) (t : Token) (refusal : Refusal),
      (s.perform t).1 = .error refusal → (s.perform t).2 = s) ∧
    (∀ (q : ErrorPolicy) (track : Option ℤ) (s : Sequencer Float) (t : Token) (ts : List Token)
      (flaw : ScoreFlaw), q.mode = .lenient → s.step t = .error (.flaw flaw) →
      Track.play q track s (t :: ts) =
        ⟨.entered (.skipped (Track.flawAt track t flaw)) :: (Track.play q track s ts).trace,
          (Track.play q track s ts).result⟩) ∧
    ∀ (p q : ErrorPolicy) (text : String), p.mode = .strict → q.mode = .lenient →
      (∀ voice ∈ Score.voices text, ∀ t ∈ Token.scan voice, t.isReadable) →
      (∀ fault, (Score.read q text : Run Float _).result ≠ .error (.number fault)) →
      ∃ tracks : List (Track Float),
        List.Forall₂ Track.OfVoice ((Score.voices text).filter (!·.all isBlank)) tracks ∧
        Score.read q text = ⟨skippedAll (Score.complaints text), .ok tracks⟩ ∧
        (Score.complaints text = ([] : List (Fault Float)) → Score.read p text = ⟨[], .ok tracks⟩) ∧
        ∀ (fault : Fault Float) (rest), Score.complaints text = fault :: rest →
          Score.read p text = (⟨[], .error fault⟩ : Run Float (List (Track Float))) ∧
          fault.message = (Entry.skipped fault).message ∧
          ∃ (track : ℕ) (voice : List Char), (Score.voices text)[track]? = some voice ∧
            (voice.all isBlank ∧
                fault = .score ⟨.emptyTrack, "", some (.ofList voice), some 0, some ↑track⟩ ∨
              ∃ t ∈ Token.scan voice, ∃ flaw, t.flaw? = some flaw ∧
                fault = .score ⟨flaw, .ofList t.command, some (.ofList t.text),
                  some ↑t.position, some ↑track⟩) := by
  refine ⟨fun s t flaw hs => Sequencer.step_flaw_iff hs.ready.length_pos,
    fun s t refusal => Sequencer.perform_refused,
    fun q track s t ts flaw hq hstep => play_flawed hq track hstep ts, ?_⟩
  intro p q text hp hq hread hn
  obtain ⟨tracks, htracks, hlenient⟩ := readVoices_lenient hq _ 0 hread hn
  -- the strict run is the one that the lenient run excuses
  have hmodes := readVoices_excused (α := Float) hp hq (Score.voices text) 0
  rw [hlenient] at hmodes
  refine ⟨tracks, htracks, hlenient, ?_, ?_⟩
  · intro hnone
    rw [show Score.complaintsFrom 0 (Score.voices text) = ([] : List (Fault Float)) from hnone]
      at hmodes
    exact hmodes.of_quiet
  · intro fault rest hsome
    rw [show Score.complaintsFrom 0 (Score.voices text) = fault :: rest from hsome] at hmodes
    exact ⟨hmodes.of_raised, rfl, mem_complaints (hsome ▸ List.mem_cons_self)⟩

/-- A blank voice comes before two flawed tokens, and the strict reading names it. -/
theorem read_modes_agree_blank_voice :
    (Sequencer.start : Sequencer Float).Reached ∧
    (Sequencer.start : Sequencer Float).step ⟨['h'], [], false, 0⟩ = .error (.flaw .unknownCommand) ∧
    (∀ voice ∈ Score.voices "c,,hd0", ∀ t ∈ Token.scan voice, t.isReadable) ∧
    (∀ fault, (Score.read ⟨.strict, some .lenient⟩ "c,,hd0" : Run Float _).result ≠
      .error (.number fault)) ∧
    Score.read ⟨.strict, none⟩ "c,,hd0" =
      (⟨[], .error (.score ⟨.emptyTrack, "", some "", some 0, some 1⟩)⟩ :
        Run Float (List (Track Float))) := by
  have hread : ∀ voice ∈ Score.voices "c,,hd0", ∀ t ∈ Token.scan voice, t.isReadable := by
    decide +kernel
  have hok : (Score.read ⟨.strict, some .lenient⟩ "c,,hd0" :
      Run Float (List (Track Float))).result.isOk := by decide +kernel
  have hn : ∀ fault, (Score.read ⟨.strict, some .lenient⟩ "c,,hd0" :
      Run Float (List (Track Float))).result ≠ .error (.number fault) := by
    intro fault hr
    rw [hr] at hok; cases hok
  obtain ⟨tracks, -, -, -, hstrict⟩ :=
    read_modes_agree.2.2.2 ⟨.strict, none⟩ ⟨.strict, some .lenient⟩ "c,,hd0" rfl rfl hread hn
  have hflaw := (read_modes_agree.1 .start ⟨['h'], [], false, 0⟩ .unknownCommand .start).2 rfl
  exact ⟨.start, hflaw, hread, hn, (hstrict _ _ (by cbv)).1⟩

end Polyphony
