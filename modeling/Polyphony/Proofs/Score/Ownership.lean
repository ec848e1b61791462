import Polyphony.Proofs.Run
import Polyphony.Proofs.Signal.Ownership
import Polyphony.Score.Piece

/-!
# Pieces own their notes

What an instrument plays is wired from new generators, and a piece is a tree of what has been played.

* `Preset.owns_play`: **every preset wires new generators alone**, note by note.
* `Score.owns_compile`: so does a piece whose instrument does, however many notes are refused on the
  way.
* `Signal.single_ownership`: antiderivatives and the pieces of presets are trees.
-/

namespace Polyphony

open Wiring

variable {α β : Type} [Scalar α] {reels : Reels α}

/-! ### Checked generators -/

theorem Signal.owns_gate (input : Signal α) (start finish : α) :
    Owns reels (input.gate start finish) input.ids ids := by
  unfold gate
  split
  · exact owns_through _ input
  · exact owns_throw _

theorem Signal.owns_lineThrough (t0 v0 t1 v1 : α) : Owns reels (lineThrough t0 v0 t1 v1) 0 ids := by
  unfold lineThrough
  split
  · exact owns_of_run.bind_new fun _ => (owns_source _).mono (by simp)
  · exact owns_source _

theorem Wiring.owns_ofNumber (r : Except NumberFault β) :
    Owns reels (ofNumber r) 0 fun _ => 0 := by
  cases r with
  | error fault => exact owns_throw _
  | ok b => exact owns_pure le_rfl

/-- **An envelope** owns its four gated stages. -/
theorem Envelope.owns_toSignal (e : Envelope α) : Owns reels e.toSignal 0 Signal.ids := by
  unfold toSignal
  split
  · exact owns_throw _
  · refine (Signal.owns_lineThrough _ _ _ _).bind_new fun rise => ?_
    refine ((Signal.owns_gate rise _ _).mono (by simp)).bind_all fun attack => ?_
    refine (Signal.owns_lineThrough _ _ _ _).bind_new fun fall => ?_
    refine (Signal.owns_gate fall _ _).bind fun decay => ?_
    refine (owns_source _).bind_new fun level => ?_
    refine (Signal.owns_gate level _ _).bind fun sustain => ?_
    refine (Signal.owns_lineThrough _ _ _ _).bind_new fun last => ?_
    refine (Signal.owns_gate last _ _).bind fun release => ?_
    exact (owns_mix _).mono (by simp [partIds, add_assoc])

/-! ### Presets -/

theorem Wiring.owns_discard {m : Wiring α β} {ids : β → Multiset ℕ} (hm : Owns reels m 0 ids) :
    Owns reels (discard m) 0 fun _ => 0 := by
  rw [Functor.discard, map_const, Function.comp_apply, map_eq_pure_bind]
  exact hm.bind_all fun b => owns_pure (Multiset.zero_le _)

theorem Signal.owns_stack (pitch : α) {voice : α → Wiring α (Signal α)}
    (hvoice : ∀ pitch, Owns reels (voice pitch) 0 ids) (count : ℕ) (octaves : ℤ) :
    Owns reels (stack pitch voice count octaves) 0 partIds := by
  induction count generalizing octaves with
  | zero => exact owns_pure le_rfl
  | succ count ih =>
    rw [stack]
    refine (owns_ofNumber _).bind_new fun factor => ?_
    refine ((hvoice _).mono (by simp)).bind_all fun first => ?_
    refine (ih _).bind_new fun rest => ?_
    exact owns_pure (by simp [partIds])

theorem Signal.owns_unison (pitch : α) (count : ℤ) {voice : α → Wiring α (Signal α)}
    (hvoice : ∀ pitch, Owns reels (voice pitch) 0 ids) :
    Owns reels (unison pitch count voice) 0 ids := by
  unfold unison
  split
  · exact owns_throw _
  · refine (owns_discard (owns_ofNumber _)).bind_new fun _ => ?_
    refine (owns_discard (owns_ofNumber _)).bind_new fun _ => ?_
    refine ((owns_stack pitch hvoice _ _).mono (by simp)).bind_all fun voices => ?_
    exact owns_mix _

namespace Preset

theorem owns_playDrum (note length volume : α) :
    Owns reels (playDrum note length volume) 0 Signal.ids := by
  refine (owns_source _).bind_new fun wave => (Envelope.owns_toSignal _).bind_new fun envelope => ?_
  refine ((owns_between _ wave envelope).mono (by simp)).bind_all fun body => ?_
  refine (Envelope.owns_toSignal _).bind_new fun sweep => ?_
  refine Owns.bind_all ?_ fun swept => owns_through _ swept
  exact (Signal.owns_frequencyModulated reels body sweep).mono (Multiset.le_add_right _ _)

theorem owns_playDummy (note length volume : α) :
    Owns reels (playDummy note length volume) 0 Signal.ids := by
  refine (owns_source _).bind_new fun wave => (Envelope.owns_toSignal _).bind_new fun envelope => ?_
  refine ((owns_between _ wave envelope).mono (by simp)).bind_all fun body => ?_
  refine (owns_source _).bind_new fun slow => (owns_through _ slow).bind fun vibrato => ?_
  refine Owns.bind_all ?_ fun swept => owns_through _ swept
  exact (Signal.owns_frequencyModulated reels body vibrato).mono (Multiset.le_add_right _ _)

theorem owns_playLegit (note length volume : α) :
    Owns reels (playLegit note length volume) 0 Signal.ids := by
  refine (Signal.owns_unison note 7 fun _ => owns_source _).bind_new fun voices => ?_
  refine ((owns_mix _).mono (by simp [partIds])).bind_all fun organ => ?_
  refine (owns_source _).bind_new fun slow => (owns_through _ slow).bind fun range => ?_
  refine ((owns_between _ organ range).mono le_rfl).bind_all fun tremolo => ?_
  refine (Envelope.owns_toSignal _).bind_new fun envelope => ?_
  exact ((owns_between _ tremolo envelope).mono le_rfl).bind_all fun shaped => owns_through _ shaped

/-- **Every preset wires new generators alone**, each of which stands in one place. -/
theorem owns_play (p : Preset) (note length volume : α) :
    Owns reels (p.play note length volume) 0 Signal.ids := by
  cases p with
  | drum => exact owns_playDrum note length volume
  | dummy => exact owns_playDummy note length volume
  | legit => exact owns_playLegit note length volume

end Preset

/-! ### Pieces -/

theorem Wiring.owns_tryCatch {m : Wiring α β} {handle : Fault α → Wiring α β} {G : Multiset ℕ}
    {ids : β → Multiset ℕ} (hm : Owns reels m G ids) (hhandle : ∀ fault, Owns reels (handle fault) G ids) :
    Owns reels (tryCatch m handle) G ids := by
  intro next b next' h
  change (tryCatch (m reels next) fun fault => handle fault reels next).result = .ok (b, next') at h
  cases hr : (m reels next).result with
  | ok p =>
    rw [Run.tryCatch_ok hr] at h
    exact hm next b next' h
  | error fault =>
    rw [Run.tryCatch_error hr] at h
    exact hhandle fault next b next' h

/-- The identities of what has been played, if it has. -/
def Piece.optionIds (s : Option (Signal α)) : Multiset ℕ := s.elim 0 Signal.ids

namespace Piece

variable {policy : ErrorPolicy} {play : Play α}

/-- **A note** that is refused leaves nothing behind. -/
theorem owns_attempt (hplay : ∀ note length volume, Owns reels (play note length volume) 0 Signal.ids)
    (track : ℕ) (n : Note α) : Owns reels (attempt policy play track n) 0 optionIds := by
  refine owns_of_run.bind_new fun _ => Owns.mono (owns_tryCatch ?_ fun fault => ?_) (Multiset.zero_le _)
  · rw [map_eq_pure_bind]
    exact (hplay _ _ _).bind_all fun s => owns_pure le_rfl
  · split
    · exact owns_of_run.bind_new fun _ => owns_pure (Multiset.zero_le _)
    · exact owns_throw _

/-- **The notes of a voice.** -/
theorem owns_placeTrack
    (hplay : ∀ note length volume, Owns reels (play note length volume) 0 Signal.ids)
    (playRests : Bool) (track : ℕ) (finish : α) (notes : Track α) :
    Owns reels (placeTrack policy play playRests track finish notes) 0 fun out => partIds out.1 := by
  induction notes generalizing finish with
  | nil => exact owns_pure le_rfl
  | cons n notes ih =>
    rw [placeTrack]
    split
    · -- a rest that is left out
      exact ih finish
    · refine (owns_attempt hplay track n).bind_new fun played => ?_
      cases played with
      | some signal =>
        refine (ih _).bind_new fun out => owns_pure ?_
        simp [partIds, optionIds]
      | none => exact (ih _).mono (Multiset.zero_le _)

end Piece

theorem Signal.owns_mapM_shift (events : List (α × Signal α)) :
    Owns reels (events.mapM fun (start, signal) => do
      return (1.0, ← signal.shift (-start)) : Wiring α (List (α × Signal α))) (partIds events)
        partIds := by
  induction events with
  | nil => exact owns_pure le_rfl
  | cons event events ih =>
    have hpart : Owns reels (do return (1.0, ← event.2.shift (-event.1)) : Wiring α (α × Signal α))
        event.2.ids fun part => part.2.ids :=
      (owns_through _ event.2).bind_all fun moved => owns_pure le_rfl
    have hevents : partIds events + event.2.ids = partIds (event :: events) := add_comm _ _
    rw [List.mapM_cons, ← hevents]
    refine hpart.bind fun part => ?_
    rw [add_comm]
    exact ih.bind fun _ => owns_pure le_rfl

/-- **A voice** takes the notes that are placed in it. -/
theorem Signal.owns_ofEvents (events : List (α × Signal α)) :
    Owns reels (ofEvents events) (partIds events) ids :=
  (owns_mapM_shift events).bind_all fun _ => owns_mix _

/-- **The voices of a piece.** -/
theorem Piece.owns_placeTracks {policy : ErrorPolicy} {play : Play α}
    (hplay : ∀ note length volume, Owns reels (play note length volume) 0 Signal.ids)
    (playRests : Bool) (track : ℕ) (p : Progress α) (tracks : List (Track α)) :
    Owns reels (placeTracks policy play playRests track p tracks) (partIds p.voices.toList)
      fun p' => partIds p'.voices.toList := by
  induction tracks generalizing track p with
  | nil => exact owns_pure le_rfl
  | cons notes tracks ih =>
    rw [placeTracks]
    refine (owns_placeTrack hplay playRests track _ notes).bind_new fun out => ?_
    refine (Signal.owns_ofEvents out.1).bind fun voice => ?_
    refine (ih _ _).mono ?_
    simp [partIds]

/-- **A piece is wired from new generators alone**, if what the instrument plays is. -/
theorem Score.owns_compile {policy : ErrorPolicy} {performer : Performer α} {playRests : Bool}
    {text : String} (hplay : ∀ play, performer.play? = .ok play →
      ∀ note length volume, Owns reels (play note length volume) 0 Signal.ids) :
    Owns reels (compile policy performer playRests text) 0 Signal.ids := by
  unfold compile
  cases h : performer.play? with
  | error fault =>
    intro next piece next' hr
    cases hr
  | ok play =>
    rw [show (ofRun (.ofExcept (.ok play)) : Wiring α (Play α)) = pure play from rfl, pure_bind]
    refine owns_of_run.bind_new fun tracks => ?_
    refine ((Piece.owns_placeTracks (hplay play h) playRests 0 _ tracks).mono (by simp [partIds])).bind_all
      fun p => ?_
    exact owns_of_run.bind_new fun _ => (owns_mix _).mono (by simp)

/-! ### Trees -/

/-- Whatever is wired from nothing is a tree of new generators. -/
theorem Wiring.Owns.tree {w : Wiring α (Signal α)} (hw : Owns reels w 0 Signal.ids) {next next' : ℕ}
    {s : Signal α} (h : (w reels next).result = .ok (s, next')) :
    (s.places.map Signal.id).Nodup ∧ s.shared = [] ∧ ∀ p ∈ s.places, next ≤ p.id := by
  obtain ⟨hnodup, hnew⟩ := hw.nodup h
  rw [← Signal.coe_map_id_places] at hnew
  refine ⟨?_, Signal.shared_eq_nil hnodup, fun p hp => hnew p.id (List.mem_map_of_mem hp)⟩
  rw [← Multiset.coe_nodup, Signal.coe_map_id_places]
  exact hnodup

/-- **Single ownership.** An antiderivative is a tree, even of a signal that is none, and it has no
generator in common with the signal. A piece that a preset plays is a tree, and so no generator of it
is met twice. -/
theorem Signal.single_ownership :
    (∀ (s F : Signal α) (reels : Reels α) (next next' : ℕ), (∀ p ∈ s.places, p.id < next) →
      (s.integral reels next).result = .ok (F, next') →
        (F.places.map id).Nodup ∧ F.shared = [] ∧ ∀ p ∈ F.places, ∀ q ∈ s.places, p.id ≠ q.id) ∧
    ∀ (policy : ErrorPolicy) (preset : Preset) (playRests : Bool) (text : String) (reels : Reels α)
      (next next' : ℕ) (piece : Signal α),
      (Score.compile policy (.ofPreset preset) playRests text reels next).result = .ok (piece, next') →
        (piece.places.map id).Nodup ∧ piece.shared = [] := by
  constructor
  · -- what is wired is new, and all that the signal has is old
    intro s F reels next next' hs h
    obtain ⟨hnodup, hshared, hnew⟩ := (owns_integral reels s).tree h
    refine ⟨hnodup, hshared, fun p hp q hq he => ?_⟩
    have hle := hnew p hp
    have hlt := hs q hq
    omega
  · intro policy preset playRests text reels next next' piece h
    have hplay : ∀ play, (Performer.ofPreset preset : Performer α).play? = .ok play →
        ∀ note length volume, Owns reels (play note length volume) 0 Signal.ids := by
      intro play hplay
      cases hplay
      exact preset.owns_play
    obtain ⟨hnodup, hshared, -⟩ := (Score.owns_compile hplay).tree h
    exact ⟨hnodup, hshared⟩

/-- A mix of a constant with itself is integrated to a tree, and a score with two voices, a rest and a
flaw becomes one. -/
theorem Signal.single_ownership_doubled_constant :
    (∃ (s F : Signal Float) (next' : ℕ), s.shared ≠ [] ∧ (∀ p ∈ s.places, p.id < 2) ∧
      (s.integral #[] 2).result = .ok (F, next') ∧ F.shared = []) ∧
    ∃ (piece : Signal Float) (next' : ℕ), (Score.compile ⟨.strict, some .lenient⟩ (.ofPreset .legit)
      true "cr4!,d" #[] 0).result = .ok (piece, next') ∧ piece.shared = [] := by
  constructor
  · let s : Signal Float := .node 1 (.mix fun _ : Fin 2 => 1.0) fun _ => .node 0 (.constant 1.0) Fin.elim0
    have hs : ∀ p ∈ s.places, p.id < 2 := by
      have hall : (s.places.all fun p => p.id < 2) = true := by decide
      simpa using hall
    have hsucceeds : Succeeds #[] s.integral :=
      (Succeeds.ofFnM fun _ => succeeds_place _ _).bind fun _ => succeeds_place _ _
    obtain ⟨F, next', hF⟩ := hsucceeds 2
    obtain ⟨-, hshared, -⟩ := single_ownership.1 s F #[] 2 next' hs hF
    exact ⟨s, F, next', List.cons_ne_nil _ _, hs, hF, hshared⟩
  · cases hpiece : (Score.compile ⟨.strict, some .lenient⟩ (.ofPreset .legit : Performer Float)
      true "cr4!,d" #[] 0).result with
    | error fault =>
      have hok : (Score.compile ⟨.strict, some .lenient⟩ (.ofPreset .legit : Performer Float)
        true "cr4!,d" #[] 0).result.isOk = true := by decide +kernel
      rw [hpiece] at hok
      cases hok
    | ok out =>
      obtain ⟨-, hshared⟩ := single_ownership.2 _ .legit _ _ _ _ out.2 out.1 hpiece
      exact ⟨out.1, out.2, rfl, hshared⟩

end Polyphony
