import Polyphony.Proofs.Signal.Wiring
import Polyphony.Studio

/-!
# The mode of a call

A call that asks for an error mode does what a call does that asks for none while that mode is the
standing one.

* `excuse_congr`: a fault is excused by the mode of a policy, and by nothing else of it.
* `Score.read_congr`, `Score.compile_congr`: so is a whole score, **at every place where something can be
  wrong with it**: a blank voice, a token, a note that the instrument refuses.
* `Session.asked_eq_standing`: in a studio the two calls leave the same behind, and the standing mode stays
  what it was.
-/

namespace Polyphony

variable {α : Type} {p q : ErrorPolicy}

/-- **Only the mode of a policy matters.** -/
theorem excuse_congr (h : p.mode = q.mode) (fault : Fault α) (entry : Entry α) :
    excuse p fault entry = excuse q fault entry := by
  unfold excuse
  rw [h]

variable [Scalar α]

/-! ### Reading -/

theorem Track.play_congr (h : p.mode = q.mode) (track : Option Int) (s : Sequencer α)
    (ts : List Token) : Track.play p track s ts = Track.play q track s ts := by
  induction ts generalizing s with
  | nil => rfl
  | cons t ts ih =>
    unfold Track.play
    obtain ⟨answer, after⟩ := s.perform t
    cases answer with
    | ok n =>
      cases n with
      | none => exact ih after
      | some n => simp only [ih after]
    | error refusal =>
      cases refusal with
      | flaw flaw => simp only [excuse_congr h, ih after]
      | number fault => rfl

theorem Track.read_congr (h : p.mode = q.mode) (track : Option Int) (voice : List Char) :
    (Track.read p track voice : Run α (Track α)) = Track.read q track voice := by
  unfold Track.read
  simp only [Track.play_congr h]

theorem Score.readVoices_congr (h : p.mode = q.mode) (track : Nat) (voices : List (List Char)) :
    (Score.readVoices p track voices : Run α (List (Track α))) = Score.readVoices q track voices := by
  induction voices generalizing track with
  | nil => rfl
  | cons voice voices ih =>
    unfold Score.readVoices
    simp only [excuse_congr h, Track.read_congr h, ih]

theorem Score.read_congr (h : p.mode = q.mode) (text : String) :
    (Score.read p text : Run α (List (Track α))) = Score.read q text :=
  Score.readVoices_congr h 0 (Score.voices text)

/-! ### Compiling -/

namespace Piece

theorem attempt_congr (h : p.mode = q.mode) (play : Play α) (track : Nat) (n : Note α) :
    attempt p play track n = attempt q play track n := by
  unfold attempt
  simp only [excuse_congr h]

theorem placeTrack_congr (h : p.mode = q.mode) (play : Play α) (playRests : Bool) (track : Nat)
    (finish : α) (notes : Track α) :
    placeTrack p play playRests track finish notes =
      placeTrack q play playRests track finish notes := by
  induction notes generalizing finish with
  | nil => rfl
  | cons n notes ih =>
    unfold placeTrack
    simp only [attempt_congr h, ih]

theorem placeTracks_congr (h : p.mode = q.mode) (play : Play α) (playRests : Bool) (track : Nat)
    (done : Progress α) (tracks : List (Track α)) :
    placeTracks p play playRests track done tracks =
      placeTracks q play playRests track done tracks := by
  induction tracks generalizing track done with
  | nil => rfl
  | cons notes tracks ih =>
    unfold placeTracks
    simp only [placeTrack_congr h, ih]

end Piece

theorem Score.compile_congr (h : p.mode = q.mode) (performer : Performer α) (playRests : Bool)
    (text : String) :
    Score.compile p performer playRests text = Score.compile q performer playRests text := by
  unfold Score.compile
  simp only [Score.read_congr h, Piece.placeTracks_congr h]

/-! ### In a studio -/

/-- The studio with a mode as the standing one, as `Session.setMode` leaves it. -/
def Studio.inMode (s : Studio α) (mode : ErrorMode) : Studio α := { s with mode := mode }

namespace Session

theorem readScore_apply (asked : Option ErrorMode) (text : String) (s : Studio α) :
    readScore asked text s = ((Score.read ⟨s.mode, asked⟩ text).keepEntries s.keeps, s) := rfl

theorem compile_apply (asked : Option ErrorMode) (performer : Performer α) (playRests : Bool)
    (text : String) (s : Studio α) : compile asked performer playRests text s =
      wire (Score.compile ⟨s.mode, asked⟩ performer playRests text) s := rfl

section Wire

variable {β : Type} {w : Wiring α β} {s : Studio α}

theorem wire_ok {b : β} {next : Nat} (h : (w s.reels s.next).result = .ok (b, next)) :
    wire w s = (⟨((w s.reels s.next).keepEntries s.keeps).trace, .ok b⟩, { s with next := next }) := by
  have hkept : ((w s.reels s.next).keepEntries s.keeps).result = .ok (b, next) := h
  simp only [wire, hkept]

theorem wire_error {fault : Fault α} (h : (w s.reels s.next).result = .error fault) :
    wire w s = (⟨((w s.reels s.next).keepEntries s.keeps).trace, .error fault⟩, s) := by
  have hkept : ((w s.reels s.next).keepEntries s.keeps).result = .error fault := h
  simp only [wire, hkept]

/-- **Wiring does not look at the standing mode**, and leaves it alone. -/
theorem wire_inMode (w : Wiring α β) (s : Studio α) (mode : ErrorMode) :
    wire w s = ((wire w (s.inMode mode)).1, (wire w (s.inMode mode)).2.inMode s.mode) := by
  cases h : (w s.reels s.next).result with
  | error fault =>
    rw [wire_error h, wire_error (s := s.inMode mode) h]
    rfl
  | ok made =>
    rw [wire_ok h, wire_ok (s := s.inMode mode) h]
    rfl

end Wire

/-- **A call that asks for a mode** is a call that asks for none while that mode is the standing one. It
ends with the same value or the same fault, after the same requests to the instrument and the same
entries, and leaves the same studio behind, but for the standing mode, which stays what it was. -/
theorem asked_eq_standing (s : Studio α) (mode : ErrorMode) (text : String) :
    readScore (some mode) text s = ((readScore none text (s.inMode mode)).1, s) ∧
    ∀ (performer : Performer α) (playRests : Bool),
      compile (some mode) performer playRests text s =
        ((compile none performer playRests text (s.inMode mode)).1,
          (compile none performer playRests text (s.inMode mode)).2.inMode s.mode) := by
  have hmode : (⟨s.mode, some mode⟩ : ErrorPolicy).mode = (⟨mode, none⟩ : ErrorPolicy).mode := rfl
  constructor
  · rw [readScore_apply, readScore_apply, Score.read_congr hmode]
    rfl
  · intro performer playRests
    rw [compile_apply, compile_apply, Score.compile_congr hmode]
    exact wire_inMode _ s mode

end Session

end Polyphony
