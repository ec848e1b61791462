import Mathlib.Logic.Relation
import Polyphony.Proofs.Score.Ownership
import Polyphony.Proofs.Shelf
import Polyphony.Proofs.Signal.Clone
import Polyphony.Proofs.StoredSpectra

/-!
# Sessions

Whatever is done in a studio that can be reached, and whether it succeeds or fails, it leads to a studio
that can be reached.

* `Wiring.Ascends`: a wiring that hands out no identity twice, as every wiring does that owns its signals.
* `Session.IsQuiet`, once more: the operations that are not about kernels and spectra are quiet.
* `Studio.Step`: **one operation of a session**, with the kernels that have been made before and after it.
  `Studio.step_cases` says what an operation comes to.
* `Studio.Reached.step`, `Studio.Reached.steps`: what one operation leads to, and what a course of them.
* `Studio.sound_of_steps`: so from an empty studio on every course of operations leads to a sound one.
* `Studio.spectrum_again_of_steps`: and a spectrum that was given once is given again after any of them.
-/

namespace Polyphony

variable {α β : Type} [Scalar α]

/-! ### Identities -/

/-- **No identity is handed out twice.** -/
def Wiring.Ascends (w : Wiring α β) : Prop :=
  ∀ reels next b next', (w reels next).result = .ok (b, next') → next ≤ next'

theorem Wiring.ascends_of_owns {w : Wiring α β} {G : Multiset ℕ} {ids : β → Multiset ℕ}
    (h : ∀ reels, Owns reels w G ids) : w.Ascends :=
  fun reels next b next' hr => (h reels next b next' hr).1

/-- A copy in progress counts on. -/
theorem Ugen.next_run_copy {n : ℕ} (u : Ugen α n) (c : Copying α) :
    (u.copy.run c).2.next = c.next := by
  cases u with
  | playback reel =>
    simp only [Ugen.copy, StateT.run_bind, StateT.run_get, pure_bind]
    cases c.reels[reel]? <;> rfl
  | _ => rfl

theorem Signal.next_le_run_copy (a : Signal α) (c : Copying α) : c.next ≤ (a.copy.run c).2.next := by
  induction a generalizing c with
  | node id ugen inputs ih =>
    cases hknown : c.copies.lookup id with
    | some m => rw [run_copy_of_known (a := node id ugen inputs) hknown]
    | none =>
      obtain ⟨-, hinputs, -⟩ := run_ofFnM (f := fun i => (inputs i).copy) (P := fun _ => True)
        (R := fun c c' : Copying α => c.next ≤ c'.next) (Q := fun _ _ _ => True) (fun _ => le_rfl)
        (fun _ _ _ h h' => h.trans h') (fun _ _ _ _ _ h => h) (fun i c _ => ⟨trivial, ih i c, trivial⟩)
        c trivial
      rw [run_copy_of_new hknown rfl rfl]
      refine hinputs.trans ?_
      rw [← ugen.next_run_copy]
      exact Nat.le_succ _

/-! ### Quiet operations -/

namespace Session

theorem keeps_ofRun {P : Studio α → Prop} (r : Run α β) : Keeps P (ofRun r) := fun _ hs => hs

theorem keeps_policy {P : Studio α → Prop} (asked : Option ErrorMode) :
    Keeps P (policy asked : Session α ErrorPolicy) := keeps_get.bind fun _ => keeps_pure _

theorem isQuiet_readScore (asked : Option ErrorMode) (text : String) :
    IsQuiet (readScore asked text : Session α (List (Track α))) :=
  fun _ => (keeps_policy asked).bind fun _ => keeps_ofRun _

theorem isQuiet_raise (asked : Option ErrorMode) (fatal : Bool) (fault : Fault α) (text : String) :
    IsQuiet (raise asked fatal fault text) := by
  intro s₀
  have hrest : Keeps s₀.Quiet (policy asked >>= fun policy =>
      ofRun (excuse policy fault (.told .warning text)) : Session α Unit) :=
    (keeps_policy asked).bind fun _ => keeps_ofRun _
  cases fatal with
  | true => exact (keeps_throw fault).bind fun _ => hrest
  | false => exact hrest

theorem isQuiet_wire {w : Wiring α β} (hw : w.Ascends) : IsQuiet (wire w) := by
  intro s₀ s hs
  unfold wire
  dsimp only [Run.keepEntries]
  split
  · rename_i b next hr
    exact hs.trans ⟨rfl, fun _ h => h, hw _ _ _ _ hr, rfl⟩
  · exact hs

/-- A score is compiled quietly if the instrument owns what it plays. -/
theorem isQuiet_compile (asked : Option ErrorMode) {performer : Performer α} (playRests : Bool)
    (text : String) (hplay : ∀ play, performer.play? = .ok play → ∀ reels note length volume,
      Wiring.Owns reels (play note length volume) 0 Signal.ids) :
    IsQuiet (compile asked performer playRests text) :=
  fun s₀ => (keeps_policy asked).bind fun _ => isQuiet_wire (Wiring.ascends_of_owns fun reels =>
    Score.owns_compile fun play h => hplay play h reels) s₀

theorem isQuiet_clone (signal : Signal α) : IsQuiet (clone signal) :=
  fun _ s hs => hs.trans ⟨rfl, fun _ h => h, signal.next_le_run_copy ⟨s.reels, s.next, []⟩, rfl⟩

theorem isQuiet_playback (r : Reel α) : IsQuiet (playback r) := by
  refine fun s₀ => Keeps.bind ?_ fun reel => isQuiet_wire ?_ s₀
  · exact fun s hs => Studio.Quiet.trans hs ⟨rfl, fun _ h => h, Nat.le_refl _, rfl⟩
  · exact Wiring.ascends_of_owns fun reels => Wiring.owns_place _ _

theorem isQuiet_tape (samples : Array α) (rate : Rate α) : IsQuiet (tape samples rate) :=
  fun s₀ => (keeps_ofExcept _).bind fun r => isQuiet_playback r s₀

theorem isQuiet_record (signal : Signal α) (rate : Rate α) (seconds : Given α)
    (plan : RecordingPlan) : IsQuiet (record signal rate seconds plan) :=
  fun s₀ => keeps_get.bind fun _ => keeps_get.bind fun _ => (keeps_ofRun _).bind fun r =>
    isQuiet_playback r s₀

theorem isQuiet_modify {g : Studio α → Studio α} (hg : ∀ s : Studio α, s.Quiet (g s)) :
    IsQuiet (modify g : Session α PUnit) := fun _ => keeps_modify fun s hs => hs.trans (hg s)

theorem isQuiet_setMode (mode : ErrorMode) : IsQuiet (setMode mode : Session α Unit) :=
  isQuiet_modify fun _ => ⟨rfl, fun _ h => h, Nat.le_refl _, rfl⟩

theorem isQuiet_setLevel (level : Level) : IsQuiet (setLevel level : Session α Unit) :=
  isQuiet_modify fun _ => ⟨rfl, fun _ h => h, Nat.le_refl _, rfl⟩

theorem isQuiet_setRate (rate : ℤ) : IsQuiet (setRate rate : Session α Unit) := by
  unfold setRate
  split
  · exact isQuiet_modify fun _ => ⟨rfl, fun _ h => h, Nat.le_refl _, rfl⟩
  · exact fun _ => keeps_throw _

theorem isQuiet_clearShelf : IsQuiet (clearShelf : Session α Unit) :=
  isQuiet_modify fun _ => ⟨rfl, List.nil_subset _, Nat.le_refl _, rfl⟩

theorem isQuiet_changeFolder (change : Folder → Except FileFault Folder)
    (fault : FileFault → Fault α) : IsQuiet (changeFolder change fault) := by
  refine fun s₀ => Keeps.bind keeps_get fun s => ?_
  split
  · refine isQuiet_modify (fun _ => ?_) s₀
    exact ⟨rfl, fun _ h => h, Nat.le_refl _, rfl⟩
  · exact keeps_throw _

theorem isQuiet_putFile (p : FilePath) (bytes : List UInt8) :
    IsQuiet (putFile p bytes : Session α Unit) :=
  fun s₀ => (isQuiet_changeFolder _ _ s₀).bind fun _ => isQuiet_changeFolder _ _ s₀

theorem makes_kernelFromFile (p : FilePath) :
    Makes (kernelFromFile p : Session α (Kernel α)) where
  quiet := fun s₀ => keeps_get.bind fun s => (makes_kernelOfFile _ _).quiet s₀
  fresh := by
    intro s k h
    rw [kernelFromFile, get_bind] at h ⊢
    exact (makes_kernelOfFile _ _).fresh h

end Session

/-! ### Steps -/

namespace Studio

open Session

/-- The kernels that have been made, after one more has been asked for. -/
def withKernel (made : List (Kernel α)) : Except (Fault α) (Kernel α) → List (Kernel α)
  | .ok k => k :: made
  | .error _ => made

/-- **One operation of a session**, with the kernels that have been made before and after it. Only of these
are spectra asked for. -/
inductive Step : List (Kernel α) × Studio α → List (Kernel α) × Studio α → Prop
  -- signals
  | wire {made s} {β : Type} {w : Wiring α β} : w.Ascends → Step (made, s) (made, (wire w s).2)
  | clone {made s} (signal : Signal α) : Step (made, s) (made, (clone signal s).2)
  | tape {made s} (samples : Array α) (rate : Rate α) : Step (made, s) (made, (tape samples rate s).2)
  | record {made s} (signal : Signal α) (rate : Rate α) (seconds : Given α) (plan : RecordingPlan) :
      Step (made, s) (made, (record signal rate seconds plan s).2)
  -- scores
  | readScore {made s} (asked : Option ErrorMode) (text : String) :
      Step (made, s) (made, (readScore asked text s).2)
  | compile {made s} (asked : Option ErrorMode) {performer : Performer α} (playRests : Bool)
      (text : String) : (∀ play, performer.play? = .ok play → ∀ reels note length volume,
        Wiring.Owns reels (play note length volume) 0 Signal.ids) →
      Step (made, s) (made, (compile asked performer playRests text s).2)
  -- what stands
  | setMode {made s} (mode : ErrorMode) : Step (made, s) (made, (setMode mode s).2)
  | setLevel {made s} (level : Level) : Step (made, s) (made, (setLevel level s).2)
  | setRate {made s} (rate : ℤ) : Step (made, s) (made, (setRate rate s).2)
  | raise {made s} (asked : Option ErrorMode) (fatal : Bool) (fault : Fault α) (text : String) :
      Step (made, s) (made, (raise asked fatal fault text s).2)
  -- files
  | putFile {made s} (p : FilePath) (bytes : List UInt8) : Step (made, s) (made, (putFile p bytes s).2)
  | changeFolder {made s} (change : Folder → Except FileFault Folder) (fault : FileFault → Fault α) :
      Step (made, s) (made, (changeFolder change fault s).2)
  | clearShelf {made s} : Step (made, s) (made, (clearShelf s).2)
  -- kernels
  | kernel {made s} (samples : Array α) (name : Option String) :
      Step (made, s) (withKernel made (kernel samples name s).1.result, (kernel samples name s).2)
  | kernelOfPcm {made s} (bytes : List UInt8) (name : Option String) :
      Step (made, s) (withKernel made (kernelOfPcm bytes name s).1.result, (kernelOfPcm bytes name s).2)
  | kernelFromFile {made s} (p : FilePath) :
      Step (made, s) (withKernel made (kernelFromFile p s).1.result, (kernelFromFile p s).2)
  | loadKernel {made s} (p : FilePath) :
      Step (made, s) (withKernel made (loadKernel p s).1.result, (loadKernel p s).2)
  -- spectra
  | spectrum {made s k} (size : Option ℤ) : k ∈ made → Step (made, s) (made, (spectrum k size s).2)
  | filtered {made s f} (r : Reel α) (overlapAdd : Given Bool) : IsMade made f →
      Step (made, s) (made, (filtered r f overlapAdd s).2)
  | convolve {made s f} (reel : ℕ) (overlapAdd : Given Bool) : IsMade made f →
      Step (made, s) (made, (convolve reel f overlapAdd s).2)

variable {made : List (Kernel α)} {s : Studio α} {p q : List (Kernel α) × Studio α}

/-- **What an operation comes to**: a quiet change, or making or loading a kernel, or asking for a spectrum, or
filtering with one. -/
theorem step_cases (h : Step p q) :
    (q.1 = p.1 ∧ p.2.Quiet q.2) ∨
    (∃ m, Makes m ∧ q = (withKernel p.1 (m p.2).1.result, (m p.2).2)) ∨
    (∃ path, q = (withKernel p.1 (loadKernel path p.2).1.result, (loadKernel path p.2).2)) ∨
    (∃ k ∈ p.1, ∃ size, q = (p.1, (spectrum k size p.2).2)) ∨
    (∃ f r overlapAdd, IsMade p.1 f ∧ q = (p.1, (filtered r f overlapAdd p.2).2)) ∨
    ∃ f reel overlapAdd, IsMade p.1 f ∧ q = (p.1, (convolve reel f overlapAdd p.2).2) := by
  cases h with
  | wire hw => exact .inl ⟨rfl, (isQuiet_wire hw).apply _⟩
  | clone signal => exact .inl ⟨rfl, (isQuiet_clone signal).apply _⟩
  | tape samples rate => exact .inl ⟨rfl, (isQuiet_tape samples rate).apply _⟩
  | record signal rate seconds plan =>
    exact .inl ⟨rfl, (isQuiet_record signal rate seconds plan).apply _⟩
  | readScore asked text => exact .inl ⟨rfl, (isQuiet_readScore asked text).apply _⟩
  | compile asked playRests text hplay =>
    exact .inl ⟨rfl, (isQuiet_compile asked playRests text hplay).apply _⟩
  | setMode mode => exact .inl ⟨rfl, (isQuiet_setMode mode).apply _⟩
  | setLevel level => exact .inl ⟨rfl, (isQuiet_setLevel level).apply _⟩
  | setRate rate => exact .inl ⟨rfl, (isQuiet_setRate rate).apply _⟩
  | raise asked fatal fault text => exact .inl ⟨rfl, (isQuiet_raise asked fatal fault text).apply _⟩
  | putFile p bytes => exact .inl ⟨rfl, (isQuiet_putFile p bytes).apply _⟩
  | changeFolder change fault => exact .inl ⟨rfl, (isQuiet_changeFolder change fault).apply _⟩
  | clearShelf => exact .inl ⟨rfl, isQuiet_clearShelf.apply _⟩
  | kernel samples name => exact .inr (.inl ⟨_, makes_kernel samples name, rfl⟩)
  | kernelOfPcm bytes name => exact .inr (.inl ⟨_, makes_kernelOfPcm bytes name, rfl⟩)
  | kernelFromFile p => exact .inr (.inl ⟨_, makes_kernelFromFile p, rfl⟩)
  | loadKernel p => exact .inr (.inr (.inl ⟨p, rfl⟩))
  | spectrum size hk => exact .inr (.inr (.inr (.inl ⟨_, hk, size, rfl⟩)))
  | filtered r overlapAdd hf => exact .inr (.inr (.inr (.inr (.inl ⟨_, r, overlapAdd, hf, rfl⟩))))
  | convolve reel overlapAdd hf =>
    exact .inr (.inr (.inr (.inr (.inr ⟨_, reel, overlapAdd, hf, rfl⟩))))

/-! ### Studios that are reached -/

theorem Reached.quietly (hs : Reached made s) {m : Session α β} (hm : IsQuiet m) :
    Reached made (m s).2 := hs.quiet (hm.apply s)

/-- An operation that makes a kernel may also fail. -/
theorem Reached.making (hs : Reached made s) {m : Session α (Kernel α)} (hm : Makes m) :
    Reached (withKernel made (m s).1.result) (m s).2 := by
  cases h : (m s).1.result with
  | ok k => exact .make hs hm h
  | error fault => exact hs.quietly hm.quiet

/-- A kernel that is not loaded has used up an identity at most. -/
theorem quiet_of_loadKernel_error {p : FilePath} {fault : Fault α}
    (h : (Session.loadKernel p s).1.result = .error fault) : s.Quiet (Session.loadKernel p s).2 := by
  obtain ⟨-, hrun⟩ | ⟨-, ⟨k, -, hok, -⟩ | ⟨-, ⟨cause, -, -, hstate⟩ |
    ⟨bytes, -, ⟨cause, -, -, hstate⟩ | ⟨k, -, hok, -⟩⟩⟩⟩ := loadKernel_cases p s
  · rw [hrun]
    exact ⟨rfl, fun _ h => h, Nat.le_refl _, rfl⟩
  · rw [hok] at h
    cases h
  · rw [hstate]
    exact ⟨rfl, fun _ h => h, Nat.le_refl _, rfl⟩
  · rw [hstate]
    exact ⟨rfl, fun _ h => h, Nat.le_succ _, rfl⟩
  · rw [hok] at h
    cases h

theorem Reached.loading (hs : Reached made s) (p : FilePath) :
    Reached (withKernel made (Session.loadKernel p s).1.result) (Session.loadKernel p s).2 := by
  cases h : (Session.loadKernel p s).1.result with
  | ok k => exact .load p hs h
  | error fault => exact hs.quiet (quiet_of_loadKernel_error h)

/-- **An operation leads from a studio that can be reached to one that can be reached.** -/
theorem Reached.step (hs : Reached p.1 p.2) (h : Step p q) : Reached q.1 q.2 := by
  obtain ⟨hmade, hq⟩ | ⟨m, hm, rfl⟩ | ⟨path, rfl⟩ | ⟨k, hk, size, rfl⟩ | ⟨f, r, overlapAdd, hf, rfl⟩ |
    ⟨f, reel, overlapAdd, hf, rfl⟩ := step_cases h
  · rw [hmade]
    exact hs.quiet hq
  · exact hs.making hm
  · exact hs.loading path
  · exact .spectrum size hs hk
  · exact .filtered r overlapAdd hs hf
  · exact .convolve reel overlapAdd hs hf

/-- **So does a course of operations.** -/
theorem Reached.steps (hs : Reached p.1 p.2) (h : Relation.ReflTransGen Step p q) :
    Reached q.1 q.2 := by
  induction h with
  | refl => exact hs
  | tail _ hstep ih => exact ih.step hstep

/-- **Every course of operations from an empty studio on leads to a sound one.** -/
theorem sound_of_steps {folder : Folder} {memory : ℕ}
    (h : Relation.ReflTransGen Step ([], Studio.empty folder memory) (made, s)) : Sound made s :=
  (Reached.steps (.opened folder memory) h).sound

/-! ### Later studios -/

theorem Later.step (hl : s.Later p.2) (h : Step p q) : s.Later q.2 := by
  obtain ⟨-, hq⟩ | ⟨m, hm, rfl⟩ | ⟨path, rfl⟩ | ⟨k, -, size, rfl⟩ | ⟨f, r, overlapAdd, -, rfl⟩ |
    ⟨f, reel, overlapAdd, -, rfl⟩ := step_cases h
  · exact hl.quiet hq
  · exact hl.quiet (hm.quiet.apply _)
  · exact hl.load path
  · exact hl.spectrum k size
  · exact hl.filtered r f overlapAdd
  · exact hl.convolve reel f overlapAdd

/-- A course of operations leads to a later studio. -/
theorem Later.steps (h : Relation.ReflTransGen Step p q) : p.2.Later q.2 := by
  induction h with
  | refl => exact .refl
  | tail _ hstep ih => exact ih.step hstep

/-- **A spectrum that was given once is given again** after any course of operations. -/
theorem spectrum_again_of_steps {k : Kernel α} {size : Option ℤ} {known : StoredSpectrum α}
    (h : (spectrum k size s).1.result = .ok known) {made' : List (Kernel α)} {s' : Studio α}
    (hsteps : Relation.ReflTransGen Step (made, (spectrum k size s).2) (made', s')) :
    spectrum k size s' = (⟨[], .ok known⟩, s') :=
  spectrum_again rfl h (Later.steps hsteps)

end Studio

end Polyphony
