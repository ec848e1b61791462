import Mathlib
import Polyphony.Proofs.Exact
import Polyphony.Proofs.Signal.Wiring
import Polyphony.Proofs.Run
import Polyphony.Score.Piece

/-!
# What a compiled piece is

The notes of a score are played one by one, by an instrument that may fail at any of them.

* `Score.requests_read`: reading a score asks no instrument; what it leaves behind are skipped flaws
  (`Score.mem_trace_readVoices`).
* `Piece.Call`: a call of the instrument, and what it leaves behind (`Call.trace`).
* `Piece.Called`: **the calls for the notes that are wanted**, in order, until one of them raises what
  is not skipped. `Piece.attempt_eq` is one call, `placeTrack_eq` and `placeTracks_eq` are those of a
  voice and of all voices.
* `Piece.IsPiece`: the piece of what has been played, and in exact arithmetic its sum
  (`IsPiece.sample_eq`).
* `Score.compile_piece`: what a compilation does.
-/

namespace Polyphony

open Scalar Wiring

variable {α : Type} [Scalar α]

/-! ### What a reading leaves behind -/

omit [Scalar α] in
theorem mem_trace_excuse {policy : ErrorPolicy} {fault : Fault α} {entry : Entry α}
    {happening : Happening α} (h : happening ∈ (excuse policy fault entry).trace) :
    happening = .entered entry := by
  unfold excuse at h
  cases hmode : policy.mode with
  | strict =>
    rw [hmode] at h
    cases h
  | lenient =>
    rw [hmode] at h
    exact List.mem_singleton.1 h

/-- **What a voice leaves behind**: skipped flaws, which name the voice. -/
theorem Track.mem_trace_play {policy : ErrorPolicy} {track : Option ℤ} {s : Sequencer α}
    {ts : List Token} {happening : Happening α}
    (h : happening ∈ (Track.play policy track s ts).trace) :
    ∃ t flaw, happening = .entered (.skipped (Track.flawAt track t flaw)) := by
  induction ts generalizing s with
  | nil => cases h
  | cons t ts ih =>
    simp only [Track.play] at h
    split at h
    · rcases Run.mem_trace_bind h with h | ⟨notes, -, h⟩
      · exact ih h
      · cases h
    · exact ih h
    · rcases Run.mem_trace_bind h with h | ⟨-, -, h⟩
      · exact ⟨_, _, mem_trace_excuse h⟩
      · exact ih h
    · cases h

theorem Track.mem_trace_read {policy : ErrorPolicy} {track : Option ℤ} {voice : List Char}
    {happening : Happening α} (h : happening ∈ (Track.read policy track voice).trace) :
    ∃ t flaw, happening = .entered (.skipped (Track.flawAt track t flaw)) := by
  rcases Run.mem_trace_bind h with h | ⟨ts, -, h⟩
  · cases h
  · exact Track.mem_trace_play h

theorem Score.mem_trace_readVoices {policy : ErrorPolicy} {track : ℕ} {voices : List (List Char)}
    {happening : Happening α} (h : happening ∈ (Score.readVoices policy track voices).trace) :
    ∃ fault, happening = .entered (.skipped fault) := by
  induction voices generalizing track with
  | nil => cases h
  | cons voice voices ih =>
    simp only [Score.readVoices] at h
    split at h
    · rcases Run.mem_trace_bind h with h | ⟨-, -, h⟩
      · exact ⟨_, mem_trace_excuse h⟩
      · exact ih h
    · rcases Run.mem_trace_bind h with h | ⟨notes, -, h⟩
      · obtain ⟨t, flaw, rfl⟩ := Track.mem_trace_read h
        exact ⟨_, rfl⟩
      · rcases Run.mem_trace_bind h with h | ⟨tracks, -, h⟩
        · exact ih h
        · cases h

/-- **Reading asks no instrument.** -/
theorem Score.requests_read (policy : ErrorPolicy) (text : String) :
    (Score.read policy text : Run α (List (Track α))).requests = [] := by
  rw [Run.requests_eq, List.filterMap_eq_nil_iff]
  intro happening h
  obtain ⟨fault, rfl⟩ := Score.mem_trace_readVoices h
  rfl

namespace Piece

/-! ### Calls of the instrument -/

/-- **One call of the instrument**: the number of the voice and the note that it is for, and what the
instrument did. -/
structure Call (α : Type) [Scalar α] where
  track : ℕ
  note : Note α
  answer : Run α (Signal α × ℕ)

/-- A note that the instrument has played. -/
structure Rendition (α : Type) [Scalar α] where
  track : ℕ
  note : Note α
  signal : Signal α

namespace Call

/-- The call for a note, when a number is the next free identity. -/
def make (play : Play α) (reels : Reels α) (next : ℕ) (wanted : ℕ × Note α) : Call α :=
  ⟨wanted.1, wanted.2, play wanted.2.frequency wanted.2.duration wanted.2.volume reels next⟩

def place (c : Call α) : ℕ × Note α := (c.track, c.note)

/-- What the instrument is asked for. -/
def request (c : Call α) : Request α := ⟨c.note.frequency, c.note.duration, c.note.volume⟩

/-- What has been played, if the call returned. -/
def rendition? (c : Call α) : Option (Rendition α) :=
  match c.answer.result with
  | .ok (signal, _) => some ⟨c.track, c.note, signal⟩
  | .error _ => none

/-- The fault that is skipped: one of this library, in lenient mode. -/
def skipped? (policy : ErrorPolicy) (c : Call α) : Option (Fault α) :=
  match c.answer.result with
  | .ok _ => none
  | .error fault => if fault.isSynth ∧ policy.mode = .lenient then some fault else none

/-- The fault that ends the compilation: any other. -/
def raised? (policy : ErrorPolicy) (c : Call α) : Option (Fault α) :=
  match c.answer.result with
  | .ok _ => none
  | .error fault => if fault.isSynth ∧ policy.mode = .lenient then none else some fault

/-- **What a call leaves behind**: the request, what the instrument did, and one warning if the note is
skipped. -/
def trace (policy : ErrorPolicy) (c : Call α) : List (Happening α) :=
  .asked c.request :: c.answer.trace ++
    ((c.skipped? policy).toList.map fun fault => .entered (.noteSkipped c.track c.note.start fault))

variable {c : Call α} {policy : ErrorPolicy} {fault : Fault α}

theorem result_of_skipped? (h : c.skipped? policy = some fault) :
    c.answer.result = .error fault := by
  unfold skipped? at h
  split at h
  · cases h
  · split at h <;> cases h
    assumption

theorem mem_trace {happening : Happening α} (h : happening ∈ c.trace policy) :
    happening = .asked c.request ∨ happening ∈ c.answer.trace ∨
      ∃ fault, c.skipped? policy = some fault ∧
        happening = .entered (.noteSkipped c.track c.note.start fault) := by
  rcases List.mem_append.1 h with h | h
  · rcases List.mem_cons.1 h with h | h
    · exact .inl h
    · exact .inr (.inl h)
  · obtain ⟨fault, hfault, rfl⟩ := List.mem_map.1 h
    exact .inr (.inr ⟨fault, Option.mem_toList.1 hfault, rfl⟩)

theorem rendition?_eq_some {r : Rendition α} (h : c.rendition? = some r) :
    r.track = c.track ∧ r.note = c.note := by
  unfold rendition? at h
  split at h <;> cases h
  exact ⟨rfl, rfl⟩

end Call

variable (reels : Reels α) (policy : ErrorPolicy) (play : Play α)

/-- **The calls for the notes that are wanted**: one for each, in order, until one of them ends the
compilation. -/
inductive Called : List (ℕ × Note α) → List (Call α) → Option (Fault α) → Prop
  | nil : Called [] [] none
  | raised {wanted rest next fault}
      (h : (Call.make play reels next wanted).raised? policy = some fault) :
      Called (wanted :: rest) [Call.make play reels next wanted] (some fault)
  | cons {wanted rest next calls fate} (h : (Call.make play reels next wanted).raised? policy = none)
      (hrest : Called rest calls fate) :
      Called (wanted :: rest) (Call.make play reels next wanted :: calls) fate

/-- What has been played in the course of calls. -/
def renditions (calls : List (Call α)) : List (Rendition α) := calls.filterMap Call.rendition?

/-- The time at which the last of some notes is over. -/
def finishOf (finish : α) (played : List (Rendition α)) : α :=
  played.foldl (fun finish r => max finish r.note.finish) finish

/-- The notes of a voice that are wanted, with the number of the voice. -/
def wantedOf (playRests : Bool) (track : ℕ) (notes : Track α) : List (ℕ × Note α) :=
  (notes.filter fun n => !n.rest || playRests).map fun n => (track, n)

/-- The notes of voices that are wanted, the first voice having the number `track`. -/
def wantedFrom (playRests : Bool) (track : ℕ) (tracks : List (Track α)) : List (ℕ × Note α) :=
  (tracks.zipIdx track).flatMap fun (notes, track) => wantedOf playRests track notes

/-- **The notes that are wanted**, voice by voice: all, or all but the rests. -/
def wanted (playRests : Bool) (tracks : List (Track α)) : List (ℕ × Note α) :=
  wantedFrom playRests 0 tracks

variable {reels policy play}

section Called

variable {ws ws' : List (ℕ × Note α)} {calls calls' : List (Call α)} {fate : Option (Fault α)}
  {fault : Fault α}

theorem Called.append (h : Called reels policy play ws calls none)
    (h' : Called reels policy play ws' calls' fate) :
    Called reels policy play (ws ++ ws') (calls ++ calls') fate := by
  generalize hnone : (none : Option (Fault α)) = before at h
  induction h with
  | nil => exact h'
  | raised h => cases hnone
  | cons h hrest ih => exact .cons h (ih hnone)

theorem Called.append_of_raised (h : Called reels policy play ws calls (some fault))
    (ws' : List (ℕ × Note α)) : Called reels policy play (ws ++ ws') calls (some fault) := by
  generalize hsome : some fault = before at h
  induction h with
  | nil => cases hsome
  | raised h => exact hsome ▸ .raised (hsome ▸ h)
  | cons h hrest ih => exact .cons h (ih hsome)

/-- **No note is called for out of order.** -/
theorem Called.places_prefix (h : Called reels policy play ws calls fate) :
    calls.map Call.place <+: ws := by
  induction h with
  | nil => exact List.nil_prefix
  | raised h => exact List.cons_prefix_cons.2 ⟨rfl, List.nil_prefix⟩
  | cons h hrest ih => exact List.cons_prefix_cons.2 ⟨rfl, ih⟩

/-- **Every note is called for**, unless a call ends the compilation. -/
theorem Called.places_eq (h : Called reels policy play ws calls none) :
    calls.map Call.place = ws := by
  generalize hnone : (none : Option (Fault α)) = fate at h
  induction h with
  | nil => rfl
  | raised h => cases hnone
  | cons h hrest ih => exact congrArg (List.cons _) (ih hnone)

end Called

variable (reels policy play) in
theorem attempt_eq (track : ℕ) (n : Note α) (next : ℕ) :
    ∃ next', attempt policy play track n reels next =
      ⟨(Call.make play reels next (track, n)).trace policy,
        ((Call.make play reels next (track, n)).raised? policy).elim
          (.ok ((Call.make play reels next (track, n)).rendition?.map Rendition.signal, next'))
          .error⟩ := by
  have hasked : attempt policy play track n reels next =
      Run.ask ⟨n.frequency, n.duration, n.volume⟩ >>= fun _ =>
        tryCatch ((some <$> play n.frequency n.duration n.volume) reels next) fun fault =>
          (if fault.isSynth then do
            ofRun (excuse policy fault (.noteSkipped track n.start fault))
            return none
          else throw fault : Wiring α (Option (Signal α))) reels next := rfl
  rw [hasked, Run.bind_ok rfl, map_eq_pure_bind, bind_apply]
  simp only [Call.trace, Call.raised?, Call.rendition?, Call.skipped?, Call.make]
  rcases h : play n.frequency n.duration n.volume reels next with ⟨trace, fault | ⟨signal, after⟩⟩
  · -- a call that fails leaves the next free identity as it was
    refine ⟨next, ?_⟩
    rw [Run.bind_error rfl, Run.tryCatch_error rfl]
    cases hsynth : fault.isSynth with
    | false =>
      simp only [hsynth, Bool.false_eq_true, false_and, if_false]
      rfl
    | true =>
      cases hmode : policy.mode with
      | strict =>
        simp only [hsynth, if_true, excuse, hmode, reduceCtorEq, and_false, if_false]
        rfl
      | lenient =>
        simp only [hsynth, if_true, excuse, hmode, and_self]
        rfl
  · refine ⟨after, ?_⟩
    rw [Run.bind_ok rfl, Run.tryCatch_ok rfl]
    rfl

theorem exists_of_mem_renditions {calls : List (Call α)} {r : Rendition α}
    (h : r ∈ renditions calls) : (r.track, r.note) ∈ calls.map Call.place := by
  obtain ⟨c, hc, hr⟩ := List.mem_filterMap.1 h
  obtain ⟨htrack, hnote⟩ := Call.rendition?_eq_some hr
  exact List.mem_map.2 ⟨c, hc, by rw [htrack, hnote]; rfl⟩

/-- The calls are those of the instrument. -/
theorem Called.answer_eq {ws : List (ℕ × Note α)} {calls : List (Call α)} {fate : Option (Fault α)}
    (h : Called reels policy play ws calls fate) :
    ∀ c ∈ calls, ∃ next, c = Call.make play reels next c.place := by
  induction h with
  | nil => exact fun c hc => absurd hc List.not_mem_nil
  | @raised wanted rest next fault h =>
    intro c hc
    obtain rfl := List.mem_singleton.1 hc
    exact ⟨next, rfl⟩
  | @cons wanted rest next calls fate h hrest ih =>
    intro c hc
    rcases List.mem_cons.1 hc with rfl | hc
    · exact ⟨next, rfl⟩
    · exact ih c hc

/-- An instrument that asks no other one leaves just the requests for its own notes. -/
theorem Called.requests_eq {ws : List (ℕ × Note α)} {calls : List (Call α)} {fate : Option (Fault α)}
    (h : Called reels policy play ws calls fate)
    (hquiet : ∀ frequency length volume next,
      (play frequency length volume reels next).requests = []) :
    (calls.flatMap (Call.trace policy)).filterMap Happening.asked? = calls.map Call.request := by
  have hone : ∀ c ∈ calls, (c.trace policy).filterMap Happening.asked? = [c.request] := by
    intro c hc
    obtain ⟨next, hmake⟩ := h.answer_eq c hc
    have hanswer : c.answer.trace.filterMap Happening.asked? = [] := by
      rw [hmake, ← Run.requests_eq]
      exact hquiet _ _ _ _
    have hwarning : ((c.skipped? policy).toList.map fun fault =>
        (.entered (.noteSkipped c.track c.note.start fault) : Happening α)).filterMap
          Happening.asked? = [] := by
      cases c.skipped? policy <;> rfl
    have hrequest : (Happening.asked c.request).asked? = some c.request := rfl
    rw [Call.trace, List.cons_append, List.filterMap_cons_some hrequest, List.filterMap_append,
      hanswer, hwarning]
    rfl
  rw [List.filterMap_flatMap, List.flatMap_congr hone, List.map_eq_flatMap]

/-- What is placed of notes that have been played. -/
def events (played : List (Rendition α)) : List (α × Signal α) :=
  played.map fun r => (r.note.start, r.signal)

variable (reels policy play) in
/-- **The calls for a voice.** -/
theorem placeTrack_eq (playRests : Bool) (track : ℕ) (finish : α) (notes : Track α) (next : ℕ) :
    ∃ calls fate next', Called reels policy play (wantedOf playRests track notes) calls fate ∧
      placeTrack policy play playRests track finish notes reels next =
        ⟨calls.flatMap (Call.trace policy),
          fate.elim (.ok ((events (renditions calls), finishOf finish (renditions calls)), next'))
            .error⟩ := by
  induction notes generalizing finish next with
  | nil => exact ⟨[], none, next, .nil, rfl⟩
  | cons n rest ih =>
    by_cases hunwanted : n.rest && !playRests
    · -- a rest that is left out
      have hskip : wantedOf playRests track (n :: rest) = wantedOf playRests track rest := by
        rw [wantedOf, List.filter_cons_of_neg (by simpa using hunwanted)]
        rfl
      rw [hskip]
      simpa only [placeTrack, hunwanted, if_true] using ih finish next
    · have hwanted : wantedOf playRests track (n :: rest) =
          (track, n) :: wantedOf playRests track rest := by
        rw [wantedOf, List.filter_cons_of_pos (by
          cases hn : n.rest <;> simp_all), List.map_cons]
        rfl
      rw [hwanted]
      simp only [placeTrack, hunwanted, Bool.false_eq_true, if_false, bind_apply]
      obtain ⟨next', hattempt⟩ := attempt_eq reels policy play track n next
      rw [hattempt]
      cases hraised : (Call.make play reels next (track, n)).raised? policy with
      | some fault =>
        -- the notes that are left are not called for
        refine ⟨_, _, next', .raised hraised, ?_⟩
        rw [Run.bind_error rfl, List.flatMap_singleton]
        rfl
      | none =>
        rw [Run.bind_ok rfl]
        cases hplayed : (Call.make play reels next (track, n)).rendition? with
        | none =>
          -- the note is skipped, and what comes later goes on as if it were not there
          obtain ⟨calls, fate, next'', hcalled, hrest⟩ := ih finish next'
          refine ⟨_, fate, next'', .cons hraised hcalled, ?_⟩
          simp only [Option.map_none, hrest, List.flatMap_cons, renditions,
            List.filterMap_cons_none hplayed]
        | some r =>
          have hnote : r.note = n := (Call.rendition?_eq_some hplayed).2
          obtain ⟨calls, fate, next'', hcalled, hrest⟩ := ih (max finish n.finish) next'
          refine ⟨_, fate, next'', .cons hraised hcalled, ?_⟩
          simp only [Option.map_some, bind_apply, hrest, List.flatMap_cons, renditions,
            List.filterMap_cons_some hplayed]
          cases fate with
          | some fault =>
            rw [Run.bind_error rfl]
            rfl
          | none =>
            rw [Run.bind_ok rfl]
            simp [events, finishOf, hnote, pure_apply]

/-! ### Voices -/

/-- A mix of signals with gains. -/
def IsMixOf (parts : List (α × Signal α)) (s : Signal α) : Prop :=
  ∃ id, s = .node id (.mix fun i : Fin parts.length => parts[i].1) fun i => parts[i].2

/-- A signal whose time is moved. -/
def IsShiftOf (offset : α) (input s : Signal α) : Prop :=
  ∃ id, s = .node id (.shift offset) fun _ => input

/-- **The voice of notes that have been played**: their mix at full gain, each moved to its start. -/
def IsVoice (played : List (Rendition α)) (voice : Signal α) : Prop :=
  ∃ placed, List.Forall₂ (fun r s => IsShiftOf (-r.note.start) r.signal s) played placed ∧
    IsMixOf (placed.map fun s => (1.0, s)) voice

variable (reels) in
theorem mapM_shift_eq (played : List (Rendition α)) (next : ℕ) :
    ∃ placed next', List.Forall₂ (fun r s => IsShiftOf (-r.note.start) r.signal s) played placed ∧
      ((events played).mapM fun (start, signal) => do
        return (1.0, ← signal.shift (-start)) : Wiring α (List (α × Signal α))) reels next =
          ⟨[], .ok (placed.map fun s => (1.0, s), next')⟩ := by
  induction played generalizing next with
  | nil => exact ⟨[], next, .nil, rfl⟩
  | cons r played ih =>
    obtain ⟨placed, next', hplaced, hmapM⟩ := ih (next + 1)
    refine ⟨.node next (.shift (-r.note.start)) (fun _ => r.signal) :: placed, next',
      .cons ⟨next, rfl⟩ hplaced, ?_⟩
    have hcons : events (r :: played) = (r.note.start, r.signal) :: events played := rfl
    rw [hcons, List.mapM_cons]
    simp only [bind_apply]
    rw [Run.bind_ok rfl, Run.bind_ok (congrArg Run.result hmapM), hmapM]
    rfl

variable (reels) in
theorem ofEvents_eq (played : List (Rendition α)) (next : ℕ) :
    ∃ voice next', IsVoice played voice ∧
      Signal.ofEvents (events played) reels next = ⟨[], .ok (voice, next')⟩ := by
  obtain ⟨placed, next', hplaced, hmapM⟩ := mapM_shift_eq reels played next
  refine ⟨_, next' + 1, ⟨placed, hplaced, next', rfl⟩, ?_⟩
  rw [Signal.ofEvents, bind_apply, hmapM]
  rfl

omit [Scalar α] in
/-- Notes are wanted for the voices that there are. -/
theorem track_of_mem_wantedFrom {playRests : Bool} {track : ℕ} {tracks : List (Track α)}
    {w : ℕ × Note α} (h : w ∈ wantedFrom playRests track tracks) :
    track ≤ w.1 ∧ w.1 < track + tracks.length := by
  obtain ⟨⟨notes, k⟩, hmem, hw⟩ := List.mem_flatMap.1 h
  obtain ⟨n, -, rfl⟩ := List.mem_map.1 hw
  obtain ⟨hfirst, hlast, -⟩ := List.mem_zipIdx hmem
  exact ⟨hfirst, hlast⟩

omit [Scalar α] in
theorem exists_of_mem_wanted {playRests : Bool} {tracks : List (Track α)} {w : ℕ × Note α}
    (h : w ∈ wanted playRests tracks) : ∃ notes, tracks[w.1]? = some notes ∧ w.2 ∈ notes := by
  obtain ⟨⟨notes, k⟩, hmem, hw⟩ := List.mem_flatMap.1 h
  obtain ⟨n, hn, rfl⟩ := List.mem_map.1 hw
  exact ⟨notes, List.mem_zipIdx_iff_getElem?.1 hmem, List.mem_of_mem_filter hn⟩

theorem Called.track_of_mem_renditions {playRests : Bool} {track : ℕ} {tracks : List (Track α)}
    {calls : List (Call α)} {fate : Option (Fault α)}
    (h : Called reels policy play (wantedFrom playRests track tracks) calls fate) {r : Rendition α}
    (hr : r ∈ renditions calls) : track ≤ r.track ∧ r.track < track + tracks.length :=
  track_of_mem_wantedFrom (h.places_prefix.subset (exists_of_mem_renditions hr))

/-- What is played for a voice has its number. -/
theorem Called.track_eq_of_mem_renditions {playRests : Bool} {track : ℕ} {notes : Track α}
    {calls : List (Call α)} {fate : Option (Fault α)}
    (h : Called reels policy play (wantedOf playRests track notes) calls fate) {r : Rendition α}
    (hr : r ∈ renditions calls) : r.track = track := by
  have hwanted := h.places_prefix.subset (exists_of_mem_renditions hr)
  obtain ⟨n, -, hn⟩ := List.mem_map.1 hwanted
  exact (congrArg Prod.fst hn).symm

/-- The number of a voice tells its notes from those of the later voices. -/
theorem filter_track_first {mine later : List (Rendition α)} {track : ℕ}
    (hmine : ∀ r ∈ mine, r.track = track) (hlater : ∀ r ∈ later, track < r.track) :
    (mine ++ later).filter (fun r => r.track = track) = mine := by
  have hall : mine.filter (fun r => r.track = track) = mine :=
    List.filter_eq_self.2 fun r hr => decide_eq_true (hmine r hr)
  have hnone : later.filter (fun r => r.track = track) = [] :=
    List.filter_eq_nil_iff.2 fun r hr => by
      have := hlater r hr
      simp
      omega
  rw [List.filter_append, hall, hnone, List.append_nil]

theorem filter_track_later {mine : List (Rendition α)} (later : List (Rendition α)) {track k : ℕ}
    (hmine : ∀ r ∈ mine, r.track = track) (hk : track < k) :
    (mine ++ later).filter (fun r => r.track = k) = later.filter fun r => r.track = k := by
  have hnone : mine.filter (fun r => r.track = k) = [] :=
    List.filter_eq_nil_iff.2 fun r hr => by
      have := hmine r hr
      simp
      omega
  rw [List.filter_append, hnone, List.nil_append]

variable (reels policy play) in
/-- **The calls for the voices.** -/
theorem placeTracks_eq (playRests : Bool) (tracks : List (Track α)) (track : ℕ) (p : Progress α)
    (next : ℕ) :
    ∃ calls fate, ∃ voices : List (Signal α), ∃ next',
      Called reels policy play (wantedFrom playRests track tracks) calls fate ∧
      placeTracks policy play playRests track p tracks reels next =
        ⟨calls.flatMap (Call.trace policy),
          fate.elim (.ok (⟨p.voices ++ (voices.map fun v => (1.0, v)).toArray,
            p.notes + (renditions calls).length, finishOf p.finish (renditions calls)⟩, next'))
            .error⟩ ∧
      (fate = none → voices.length = tracks.length ∧ ∀ k voice, voices[k]? = some voice →
        IsVoice ((renditions calls).filter fun r => r.track = track + k) voice) := by
  induction tracks generalizing track p next with
  | nil =>
    refine ⟨[], none, [], next, .nil, ?_, fun _ => ⟨rfl, fun k voice hvoice => by cases hvoice⟩⟩
    simp [placeTracks, pure_apply, renditions, finishOf]
  | cons notes tracks ih =>
    have hwanted : wantedFrom playRests track (notes :: tracks) =
        wantedOf playRests track notes ++ wantedFrom playRests (track + 1) tracks := rfl
    rw [hwanted]
    obtain ⟨calls, fate, next', hcalled, hplaced⟩ :=
      placeTrack_eq reels policy play playRests track p.finish notes next
    simp only [placeTracks, bind_apply, hplaced]
    cases fate with
    | some fault =>
      refine ⟨calls, some fault, [], next', hcalled.append_of_raised _, ?_, fun h => by cases h⟩
      rw [Run.bind_error rfl]
      rfl
    | none =>
      obtain ⟨voice, next'', hvoice, hmixed⟩ :=
        ofEvents_eq reels (renditions calls) next'
      obtain ⟨calls', fate', voices, last, hcalled', hrest, hvoices⟩ := ih (track + 1)
        ⟨p.voices.push (1.0, voice), p.notes + (events (renditions calls)).length,
          finishOf p.finish (renditions calls)⟩ next''
      have hplayed : renditions (calls ++ calls') = renditions calls ++ renditions calls' :=
        List.filterMap_append
      refine ⟨calls ++ calls', fate', voice :: voices, last, hcalled.append hcalled', ?_, ?_⟩
      · rw [Run.bind_ok rfl, Run.bind_ok (congrArg Run.result hmixed), hmixed, hplayed]
        simp only [hrest]
        cases fate' with
        | some fault => simp
        | none => simp [finishOf, events, Nat.add_assoc]
      · intro hnone
        obtain ⟨hlength, hvoices⟩ := hvoices hnone
        refine ⟨by rw [List.length_cons, hlength, List.length_cons], fun k v hv => ?_⟩
        have hmine : ∀ r ∈ renditions calls, r.track = track := fun r hr =>
          hcalled.track_eq_of_mem_renditions hr
        have hlater : ∀ r ∈ renditions calls', track < r.track := fun r hr =>
          (hcalled'.track_of_mem_renditions hr).1
        rw [hplayed]
        cases k with
        | zero =>
          cases hv
          rw [Nat.add_zero, filter_track_first hmine hlater]
          exact hvoice
        | succ k =>
          rw [filter_track_later _ hmine (by omega), show track + (k + 1) = track + 1 + k by omega]
          exact hvoices k v hv

/-- **The piece of notes that have been played**: the mix of its voices, one for each track. -/
def IsPiece (tracks : ℕ) (played : List (Rendition α)) (piece : Signal α) : Prop :=
  (∀ r ∈ played, r.track < tracks) ∧ ∃ voices : List (Signal α), voices.length = tracks ∧
    (∀ k voice, voices[k]? = some voice →
      IsVoice (played.filter fun r => r.track = k) voice) ∧
    IsMixOf (voices.map fun v => (1.0, v)) piece

/-- Without an instrument nothing is read. -/
theorem compile_of_play_error {performer : Performer α} {fault : Fault α}
    (hplay : performer.play? = .error fault) {playRests : Bool} {text : String} {next : ℕ} :
    Score.compile policy performer playRests text reels next = ⟨[], .error fault⟩ := by
  have hplayer : (Run.ofExcept performer.play? : Run α _).result = .error fault := hplay
  rw [Score.compile, bind_apply, ofRun_error hplayer, Run.bind_error rfl, hplay]
  rfl

/-- A fault of the reading ends the compilation. -/
theorem compile_of_read_error {performer : Performer α} (hplay : performer.play? = .ok play)
    {playRests : Bool} {text : String} {fault : Fault α}
    (hread : (Score.read policy text : Run α (List (Track α))).result = .error fault) (next : ℕ) :
    Score.compile policy performer playRests text reels next =
      ⟨(Score.read policy text : Run α (List (Track α))).trace, .error fault⟩ := by
  have hplayer : (Run.ofExcept performer.play? : Run α _).result = .ok play := hplay
  rw [Score.compile, bind_apply, ofRun_ok hplayer, Run.bind_ok rfl, bind_apply, ofRun_error hread,
    Run.bind_error rfl]
  rfl

variable (reels) in
theorem compile_eq {performer : Performer α} (hplay : performer.play? = .ok play) (playRests : Bool)
    {text : String} {tracks : List (Track α)}
    (hread : (Score.read policy text).result = .ok tracks) (next : ℕ) :
    ∃ calls fate, Called reels policy play (wanted playRests tracks) calls fate ∧
      (∀ fault, fate = some fault → Score.compile policy performer playRests text reels next =
        ⟨(Score.read policy text).trace ++ calls.flatMap (Call.trace policy), .error fault⟩) ∧
      (fate = none → ∃ piece next', Score.compile policy performer playRests text reels next =
        ⟨(Score.read policy text).trace ++ calls.flatMap (Call.trace policy) ++
            [.entered (.compiled tracks.length (renditions calls).length
              (finishOf 0.0 (renditions calls)))], .ok (piece, next')⟩ ∧
        IsPiece tracks.length (renditions calls) piece) := by
  obtain ⟨calls, fate, voices, next', hcalled, hplaced, hvoices⟩ := placeTracks_eq
    reels policy play playRests tracks 0 ⟨#[], 0, 0.0⟩ next
  have hplayer : (Run.ofExcept performer.play? : Run α _).result = .ok play := hplay
  have hcompile : Score.compile policy performer playRests text reels next =
      (⟨(Score.read policy text).trace, .ok (tracks, next)⟩ : Run α _) >>= fun read =>
        placeTracks policy play playRests 0 ⟨#[], 0, 0.0⟩ read.1 reels read.2 >>= fun placed =>
          (do
            enter (.compiled placed.1.voices.size placed.1.notes placed.1.finish)
            Signal.mix placed.1.voices : Wiring α (Signal α)) reels placed.2 := by
    rw [Score.compile, bind_apply, ofRun_ok hplayer, Run.bind_ok rfl, bind_apply, ofRun_ok hread]
    rfl
  rw [hcompile, Run.bind_ok rfl, hplaced]
  refine ⟨calls, fate, hcalled, fun fault hfate => ?_, fun hfate => ?_⟩
  · subst hfate
    rw [Run.bind_error rfl]
  · subst hfate
    obtain ⟨hlength, hvoices⟩ := hvoices rfl
    simp only [Nat.zero_add] at hvoices
    refine ⟨_, next' + 1, ?_, fun r hr => ?_, voices, hlength, hvoices, next', rfl⟩
    · have hmixed : ∀ parts : List (α × Signal α), (do
          enter (.compiled parts.toArray.size (renditions calls).length
            (finishOf 0.0 (renditions calls)))
          Signal.mix parts.toArray : Wiring α (Signal α)) reels next' =
            ⟨[.entered (.compiled parts.length (renditions calls).length
              (finishOf 0.0 (renditions calls)))],
              .ok (.node next' (.mix fun i : Fin parts.length => parts[i].1) fun i => parts[i].2,
                next' + 1)⟩ := fun _ => rfl
      rw [Run.bind_ok rfl]
      simp only [Array.empty_append, Nat.zero_add, hmixed, List.length_map, hlength,
        List.append_assoc]
    · simpa using (hcalled.track_of_mem_renditions hr).2

/-! ### What a piece sounds like -/

section Sample

variable {later : Reels ℝ} {t : ℝ}

theorem IsMixOf.sample_eq {parts : List (ℝ × Signal ℝ)} {s : Signal ℝ} (h : IsMixOf parts s) :
    s.sample later t = (parts.map fun p => p.1 * p.2.sample later t).sum := by
  obtain ⟨id, rfl⟩ := h
  simp only [Signal.sample, Ugen.sample]
  rw [Exact.foldl_add_eq]
  exact Fin.sum_univ_fun_getElem parts fun p => p.1 * p.2.sample later t

theorem IsVoice.sample_eq {played : List (Rendition ℝ)} {voice : Signal ℝ} (h : IsVoice played voice) :
    voice.sample later t = (played.map fun r => r.signal.sample later (t - r.note.start)).sum := by
  obtain ⟨placed, hplaced, hmix⟩ := h
  rw [hmix.sample_eq, List.map_map]
  -- only what is placed matters from here on
  clear hmix
  induction hplaced with
  | nil => rfl
  | cons hshift _ ih =>
    obtain ⟨id, rfl⟩ := hshift
    rw [List.map_cons, List.sum_cons, ih, List.map_cons, List.sum_cons]
    congr 1
    simp [Signal.sample, Ugen.sample, sub_eq_add_neg]

/-- A sum, part by part. -/
theorem sum_filter_eq (n : ℕ) (played : List (Rendition ℝ)) (value : Rendition ℝ → ℝ)
    (h : ∀ r ∈ played, r.track < n) :
    ∑ k : Fin n, ((played.filter fun r => r.track = (k : ℕ)).map value).sum =
      (played.map value).sum := by
  induction played with
  | nil => simp
  | cons r played ih =>
    obtain ⟨hr, hplayed⟩ := List.forall_mem_cons.1 h
    -- the first note belongs to one part, and the others are summed already
    have hsplit : ∀ k : Fin n, (((r :: played).filter fun r => r.track = (k : ℕ)).map value).sum =
        (if k = ⟨r.track, hr⟩ then value r else 0) +
          ((played.filter fun r => r.track = (k : ℕ)).map value).sum := by
      intro k
      by_cases hk : k = ⟨r.track, hr⟩
      · simp [hk]
      · have hne : r.track ≠ k := fun h => hk (Fin.ext h.symm)
        simp [hk, hne]
    rw [Finset.sum_congr rfl fun k _ => hsplit k, Finset.sum_add_distrib, ih hplayed,
      Finset.sum_ite_eq' Finset.univ, if_pos (Finset.mem_univ _), List.map_cons, List.sum_cons]

/-- **In exact arithmetic a piece is the sum of its notes**, each at the time since its start. -/
theorem IsPiece.sample_eq {tracks : ℕ} {played : List (Rendition ℝ)} {piece : Signal ℝ}
    (h : IsPiece tracks played piece) : piece.sample later t =
      (played.map fun r => r.signal.sample later (t - r.note.start)).sum := by
  obtain ⟨htracks, voices, rfl, hvoices, hmix⟩ := h
  have hvoice : ∀ k : Fin voices.length, voices[(k : ℕ)].sample later t =
      ((played.filter fun r => r.track = (k : ℕ)).map fun r =>
        r.signal.sample later (t - r.note.start)).sum := fun k =>
    (hvoices k _ (List.getElem?_eq_getElem k.isLt)).sample_eq
  have hsum : piece.sample later t = (voices.map fun v => v.sample later t).sum := by
    simp [hmix.sample_eq, Function.comp_def]
  rw [hsum, ← Fin.sum_univ_fun_getElem, Finset.sum_congr rfl fun k _ => hvoice k]
  exact sum_filter_eq _ played _ htracks

end Sample

end Piece

open Piece

/-- **What a compiled piece is.** Reading the score asks no instrument, and a fault of the reading ends
the compilation. Otherwise the instrument is called once for every note that is wanted, voice by voice
and in order, until a call raises a fault that is not skipped: one that is not of this library, or any
in strict mode. The piece has one voice for each voice that has been read, and a voice holds what has
been played for its notes, in order; so in exact arithmetic the piece is the sum of what has been
played, each at the time since the start of its own note. -/
theorem Score.compile_piece :
    (∀ {α : Type} [Scalar α] (performer : Performer α) (play : Play α) (policy : ErrorPolicy)
      (playRests : Bool) (text : String) (reels : Reels α) (next : ℕ),
      performer.play? = .ok play →
      (Score.read policy text : Run α (List (Track α))).requests = [] ∧
      (∀ fault, (Score.read policy text : Run α (List (Track α))).result = .error fault →
        Score.compile policy performer playRests text reels next =
          ⟨(Score.read policy text : Run α (List (Track α))).trace, .error fault⟩) ∧
      ∀ tracks, (Score.read policy text : Run α (List (Track α))).result = .ok tracks →
        ∃ calls fate, Called reels policy play (wanted playRests tracks) calls fate ∧
          calls.map Call.place <+: wanted playRests tracks ∧
          (fate = none → calls.map Call.place = wanted playRests tracks) ∧
          ((∀ frequency length volume next,
              (play frequency length volume reels next).requests = []) →
            (Score.compile policy performer playRests text reels next).requests =
              calls.map Call.request) ∧
          (∀ fault, fate = some fault → Score.compile policy performer playRests text reels next =
            ⟨(Score.read policy text).trace ++ calls.flatMap (Call.trace policy), .error fault⟩) ∧
          (fate = none → ∃ piece next', Score.compile policy performer playRests text reels next =
            ⟨(Score.read policy text).trace ++ calls.flatMap (Call.trace policy) ++
                [.entered (.compiled tracks.length (renditions calls).length
                  (finishOf 0.0 (renditions calls)))], .ok (piece, next')⟩ ∧
            IsPiece tracks.length (renditions calls) piece)) ∧
    ∀ (tracks : ℕ) (played : List (Rendition ℝ)) (piece : Signal ℝ), IsPiece tracks played piece →
      ∀ (later : Reels ℝ) (t : ℝ), piece.sample later t =
        (played.map fun r => r.signal.sample later (t - r.note.start)).sum := by
  refine ⟨fun {α} _ performer play policy playRests text reels next hplay => ?_,
    fun tracks played piece h later t => h.sample_eq⟩
  refine ⟨Score.requests_read policy text, fun fault hread => ?_, fun tracks hread => ?_⟩
  · exact compile_of_read_error hplay hread next
  · obtain ⟨calls, fate, hcalled, hraised, hdone⟩ :=
      compile_eq reels hplay playRests hread next
    refine ⟨calls, fate, hcalled, hcalled.places_prefix, fun hfate => ?_, fun hsilent => ?_, hraised,
      hdone⟩
    · subst hfate
      exact hcalled.places_eq
    · have hcalls := hcalled.requests_eq hsilent
      have hreading : (Score.read policy text : Run α (List (Track α))).trace.filterMap
          Happening.asked? = [] := by
        rw [← Run.requests_eq, Score.requests_read]
      rw [Run.requests_eq]
      cases fate with
      | some fault =>
        rw [hraised fault rfl, List.filterMap_append, hreading, hcalls, List.nil_append]
      | none =>
        obtain ⟨piece, next', hpiece, -⟩ := hdone rfl
        rw [hpiece, List.filterMap_append, List.filterMap_append, hreading, hcalls, List.nil_append]
        exact List.append_nil _

/-- An instrument that plays a constant, but no rests. -/
def Piece.noRests : Performer Float where
  method := some fun frequency _ _ =>
    if frequency == 0.0 then throw (.told .configuration "no rests") else Signal.constant 1.0
  itself := none
  shown := "noRests"

/-- The time itself, from half a second on. -/
noncomputable def Piece.late : Rendition ℝ :=
  ⟨0, ⟨1 / 2, 1, 440, 1, false⟩, .node 0 (.line 0 1) Fin.elim0⟩

/-- A rest between two notes is asked for and refused; and a piece of one note, which is late. -/
theorem Score.compile_piece_refused_rest :
    (∃ play, Piece.noRests.play? = .ok play ∧
      (Score.compile ⟨.lenient, none⟩ Piece.noRests true "cr,d" #[] 0).result.isOk ∧
      (Score.compile ⟨.lenient, none⟩ Piece.noRests true "cr,d" #[] 0).requests.length = 3) ∧
    ∃ piece, IsPiece 1 [Piece.late] piece ∧ piece.sample #[] 2 = 3 / 2 := by
  refine ⟨⟨_, rfl, ?_, ?_⟩, ?_⟩
  · decide +kernel
  · have hok : (Score.compile ⟨.lenient, none⟩ Piece.noRests true "cr,d" #[] 0).result.isOk := by
      decide +kernel
    have hwanted : ((Score.read ⟨.lenient, none⟩ "cr,d" : Run Float _).result.toOption.map
        fun tracks => (wanted true tracks).length) = some 3 := by decide +kernel
    obtain ⟨-, -, hcompile⟩ := Score.compile_piece.1 Piece.noRests _ ⟨.lenient, none⟩ true
      "cr,d" #[] 0 rfl
    cases hread : (Score.read ⟨.lenient, none⟩ "cr,d" : Run Float _).result with
    | error fault =>
      rw [hread] at hwanted
      cases hwanted
    | ok tracks =>
      obtain ⟨calls, fate, -, -, hall, hrequests, hraised, -⟩ := hcompile tracks hread
      cases fate with
      | some fault =>
        rw [hraised fault rfl] at hok
        cases hok
      | none =>
        rw [hread] at hwanted
        rw [hrequests ?_, List.length_map, ← List.length_map Call.place, hall rfl]
        · exact Option.some.inj hwanted
        · intro frequency length volume next
          show ((if frequency == 0.0 then throw (.told .configuration "no rests")
            else Signal.constant 1.0 : Wiring Float (Signal Float)) #[] next).requests = []
          split <;> rfl
  · have hshift : IsShiftOf (-Piece.late.note.start) Piece.late.signal
        (.node 1 (.shift (-Piece.late.note.start)) fun _ => Piece.late.signal) := ⟨1, rfl⟩
    obtain ⟨voice, hvoice⟩ : ∃ voice, IsVoice [Piece.late] voice :=
      ⟨.node 2 _ _, _, .cons hshift .nil, 2, rfl⟩
    obtain ⟨piece, hpiece⟩ : ∃ piece, IsMixOf ([voice].map fun v => (1.0, v)) piece :=
      ⟨.node 3 _ _, 3, rfl⟩
    have hone : IsPiece 1 [Piece.late] piece := by
      refine ⟨fun r hr => ?_, [voice], rfl, fun k v hv => ?_, hpiece⟩
      · rw [List.mem_singleton.1 hr]
        exact Nat.one_pos
      · cases k with
        | zero =>
          cases hv
          exact hvoice
        | succ k => cases hv
    refine ⟨piece, hone, ?_⟩
    rw [Score.compile_piece.2 1 [Piece.late] piece hone #[] 2]
    norm_num [Piece.late, Signal.sample, Ugen.sample]

end Polyphony
