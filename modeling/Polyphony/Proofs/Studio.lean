import Mathlib.Data.Int.Notation
import Mathlib.Data.List.Basic
import Polyphony.Studio

/-!
# The spectra of a studio

A spectrum is computed once and looked up from then on, by the identity of the kernel and the size
of the block.

* `Session.Keeps`: an operation keeps a property of studios, also where it fails. The rule for `>>=`
  is `Session.Keeps.bind`.
* `Studio.Quiet`: a change that stores no spectrum, shelves no kernel and hands out no identity for a
  second time.
* `Studio.Sound`: the invariant. The kernels that have been made have identities of their own, and
  **every stored spectrum is that of a kernel that has been made**.
* `Studio.Reached.sound`: every studio that can be reached is sound.
* `Session.spectrum_result`: so asking for a spectrum answers with what would be computed.
-/

namespace Polyphony

variable {α β γ : Type} [Scalar α]

/-! ### Operations, step by step -/

namespace Session

variable {s : Studio α}

theorem get_bind (f : Studio α → Session α β) (s : Studio α) : (get >>= f) s = f s s := rfl

theorem fresh_bind (f : ℕ → Session α β) (s : Studio α) :
    (fresh >>= f) s = f s.next { s with next := s.next + 1 } := rfl

theorem ofExcept_ok_bind (b : β) (f : β → Session α γ) (s : Studio α) :
    (ofExcept (.ok b) >>= f) s = f b s := rfl

/-! ### What operations keep -/

/-- The operation **keeps** a property of studios, also where it fails. -/
def Keeps (P : Studio α → Prop) (m : Session α β) : Prop := ∀ s, P s → P (m s).2

variable {P : Studio α → Prop}

theorem Keeps.bind {m : Session α β} {f : β → Session α γ} (hm : Keeps P m)
    (hf : ∀ b, Keeps P (f b)) : Keeps P (m >>= f) := by
  intro s hs
  cases h : (m s).1.result with
  | error e => rw [bind_error h]; exact hm s hs
  | ok b => rw [bind_ok h]; exact hf b _ (hm s hs)

theorem keeps_pure (b : β) : Keeps P (pure b : Session α β) := fun _ hs => hs

theorem keeps_throw (e : Fault α) : Keeps P (throw e : Session α β) := fun _ hs => hs

theorem keeps_get : Keeps P (get : Session α (Studio α)) := fun _ hs => hs

theorem keeps_ofExcept (r : Except (Fault α) β) : Keeps P (ofExcept r) := fun _ hs => hs

theorem keeps_enter (entry : Entry α) : Keeps P (enter entry) := fun _ hs => hs

theorem keeps_modify {g : Studio α → Studio α} (hg : ∀ s, P s → P (g s)) :
    Keeps P (modify g : Session α PUnit) := fun s hs => hg s hs

end Session

/-! ### Quiet operations -/

/-- **A quiet change**: no spectrum is stored, no kernel is shelved, no identity becomes free again, and
the memory stays as large as it is. -/
structure Studio.Quiet (s s' : Studio α) : Prop where
  spectra : s'.spectra = s.spectra
  shelf : s'.shelf ⊆ s.shelf
  next : s.next ≤ s'.next
  memory : s'.memory = s.memory

theorem Studio.Quiet.trans {s s' s'' : Studio α} (h : s.Quiet s') (h' : s'.Quiet s'') :
    s.Quiet s'' where
  spectra := h'.spectra.trans h.spectra
  shelf := List.Subset.trans h'.shelf h.shelf
  next := Nat.le_trans h.next h'.next
  memory := h'.memory.trans h.memory

namespace Session

/-- An operation that changes every studio quietly. -/
def IsQuiet (m : Session α β) : Prop := ∀ s₀ : Studio α, Keeps s₀.Quiet m

variable {s : Studio α}

theorem IsQuiet.apply {m : Session α β} (h : IsQuiet m) (s : Studio α) : s.Quiet (m s).2 :=
  h s s ⟨rfl, fun _ h => h, Nat.le_refl _, rfl⟩

theorem isQuiet_fresh : IsQuiet (fresh : Session α ℕ) :=
  fun _ _ hs => hs.trans ⟨rfl, fun _ h => h, Nat.le_succ _, rfl⟩

/-- **An operation that makes a kernel**: it is quiet, and the identity of the kernel is one that it
has used up. -/
structure Makes (m : Session α (Kernel α)) : Prop where
  quiet : IsQuiet m
  fresh : ∀ {s k}, (m s).1.result = .ok k → s.next ≤ k.id ∧ k.id < (m s).2.next

omit [Scalar α] in
theorem id_ofSamples {id : ℕ} {samples : Array α} {name : Option String} {k : Kernel α}
    (h : Kernel.ofSamples id samples name = .ok k) : k.id = id := by
  unfold Kernel.ofSamples at h
  split at h
  · cases h; rfl
  · cases h

theorem id_ofPcm {id : ℕ} {bytes : List UInt8} {name : Option String} {k : Kernel α}
    (h : Kernel.ofPcm id bytes name = .ok k) : k.id = id := by
  unfold Kernel.ofPcm at h
  cases hd : (Pcm.decode? bytes : Except (Fault α) (List α)) with
  | error e => rw [hd] at h; cases h
  | ok samples => rw [hd] at h; exact id_ofSamples h

theorem makes_kernel (samples : Array α) (name : Option String) : Makes (kernel samples name) where
  quiet := fun s₀ => (isQuiet_fresh s₀).bind fun _ => keeps_ofExcept _
  fresh := by
    intro s k h
    rw [kernel, fresh_bind] at h
    rw [id_ofSamples h]
    exact ⟨Nat.le_refl _, Nat.lt_succ_self _⟩

theorem makes_kernelOfPcm (bytes : List UInt8) (name : Option String) :
    Makes (kernelOfPcm bytes name : Session α (Kernel α)) where
  quiet := fun s₀ => (isQuiet_fresh s₀).bind fun _ => keeps_ofExcept _
  fresh := by
    intro s k h
    rw [kernelOfPcm, fresh_bind] at h
    rw [id_ofPcm h]
    exact ⟨Nat.le_refl _, Nat.lt_succ_self _⟩

/-- An operation that reports on a kernel makes it still. -/
theorem Makes.report {m : Session α (Kernel α)} (hm : Makes m) (entry : Kernel α → Entry α) :
    Makes (do let k ← m; enter (entry k); return k) where
  quiet := fun s₀ => (hm.quiet s₀).bind fun _ => (keeps_enter _).bind fun _ => keeps_pure _
  fresh := by
    intro s k h
    cases hr : (m s).1.result with
    | error e => rw [bind_error hr] at h; cases h
    | ok made =>
      rw [bind_ok hr] at h ⊢
      cases h
      exact hm.fresh hr

theorem makes_kernelOfFile (path : String) (bytes : Except FileFault (List UInt8)) :
    Makes (kernelOfFile path bytes : Session α (Kernel α)) := by
  unfold kernelOfFile
  cases bytes with
  | error cause => exact ⟨fun _ => keeps_throw _, fun h => by cases h⟩
  | ok bytes => exact (makes_kernelOfPcm bytes _).report fun k => .kernelLoaded path k.samples.size

end Session

/-! ### Sound studios -/

namespace Studio

/-- **A sound studio**, given the kernels that have been made: each of them has used up an identity
of its own, the stored spectra are theirs, and so are the kernels on the shelf. -/
structure Sound (made : List (Kernel α)) (s : Studio α) : Prop where
  known : ∀ k ∈ made, k.id < s.next
  distinct : ∀ k ∈ made, ∀ k' ∈ made, k.id = k'.id → k = k'
  spectra : ∀ entry ∈ s.spectra, ∃ k ∈ made, k.id = entry.1.1 ∧
    entry.2.spectrum = k.spectrumAt entry.1.2
  shelf : ∀ entry ∈ s.shelf, entry.2 ∈ made

variable {made : List (Kernel α)} {s s' : Studio α} {k : Kernel α}

theorem sound_empty (folder : Folder) (memory : ℕ) :
    Sound [] (Studio.empty folder memory : Studio α) where
  known := by simp
  distinct := by simp
  spectra := by simp [Studio.empty]
  shelf := by simp [Studio.empty]

theorem Sound.quiet (h : Sound made s) (hq : s.Quiet s') : Sound made s' where
  known := fun k hk => Nat.lt_of_lt_of_le (h.known k hk) hq.next
  distinct := h.distinct
  spectra := by rw [hq.spectra]; exact h.spectra
  shelf := fun entry he => h.shelf entry (hq.shelf he)

/-- A stored spectrum is what would be computed. -/
theorem Sound.lookup (h : Sound made s) (hk : k ∈ made) {block : ℕ} {known : StoredSpectrum α}
    (hl : s.spectra.lookup (k.id, block) = some known) :
    known.spectrum = k.spectrumAt block := by
  obtain ⟨before, after, hsplit, -⟩ := List.lookup_eq_some_iff.1 hl
  obtain ⟨k', hk', hid, hspectrum⟩ := h.spectra ((k.id, block), known) (by simp [hsplit])
  rw [hspectrum, h.distinct k' hk' k hk hid]

/-- A kernel that is new to the studio has an identity that no other kernel has. -/
theorem Sound.make (h : Sound made s) (hq : s.Quiet s') (hfresh : s.next ≤ k.id)
    (hused : k.id < s'.next) : Sound (k :: made) s' where
  known := by
    intro k' hk'
    rcases List.mem_cons.1 hk' with rfl | hk'
    · exact hused
    · exact (h.quiet hq).known k' hk'
  distinct := by
    -- the kernels before it have identities below the next free one
    have hne : ∀ k' ∈ made, k'.id ≠ k.id := by
      intro k' hk'
      have := h.known k' hk'
      omega
    intro k₁ h₁ k₂ h₂ hid
    rcases List.mem_cons.1 h₁ with e₁ | m₁ <;> rcases List.mem_cons.1 h₂ with e₂ | m₂
    · rw [e₁, e₂]
    · exact absurd (e₁ ▸ hid.symm) (hne k₂ m₂)
    · exact absurd (e₂ ▸ hid) (hne k₁ m₁)
    · exact h.distinct k₁ m₁ k₂ m₂ hid
  spectra := by
    intro entry he
    obtain ⟨k', hk', hentry⟩ := (h.quiet hq).spectra entry he
    exact ⟨k', List.mem_cons_of_mem _ hk', hentry⟩
  shelf := fun entry he => List.mem_cons_of_mem _ ((h.quiet hq).shelf entry he)

/-- A kernel that was made already may be counted once more. -/
theorem Sound.count (h : Sound made s) (hk : k ∈ made) : Sound (k :: made) s where
  known := by simpa using ⟨h.known k hk, h.known⟩
  distinct := by
    have hmem : ∀ k' ∈ k :: made, k' ∈ made := by
      intro k' hk'
      rcases List.mem_cons.1 hk' with rfl | hk'
      · exact hk
      · exact hk'
    exact fun k₁ h₁ k₂ h₂ => h.distinct k₁ (hmem k₁ h₁) k₂ (hmem k₂ h₂)
  spectra := by
    intro entry he
    obtain ⟨k', hk', hentry⟩ := h.spectra entry he
    exact ⟨k', List.mem_cons_of_mem _ hk', hentry⟩
  shelf := fun entry he => List.mem_cons_of_mem _ (h.shelf entry he)

/-- A spectrum may be stored under the identity of its kernel. -/
theorem Sound.store (h : Sound made s) (hk : k ∈ made) (block id : ℕ) :
    Sound made { s with spectra := ((k.id, block), ⟨id, k.spectrumAt block⟩) :: s.spectra } where
  known := h.known
  distinct := h.distinct
  spectra := by
    intro entry he
    rcases List.mem_cons.1 he with rfl | he
    · exact ⟨k, hk, rfl, rfl⟩
    · exact h.spectra entry he
  shelf := h.shelf

/-- A kernel that was made may be shelved. -/
theorem Sound.shelve (h : Sound made s) (hk : k ∈ made) (location : Location) :
    Sound made { s with shelf := (location, k) :: s.shelf } where
  known := h.known
  distinct := h.distinct
  spectra := h.spectra
  shelf := by
    intro entry he
    rcases List.mem_cons.1 he with rfl | he
    · exact hk
    · exact h.shelf entry he

end Studio

namespace Session

open Studio

variable {made : List (Kernel α)} {s : Studio α} {k : Kernel α}

/-- What asking for a spectrum keeps: whatever survives a new identity and a stored spectrum. -/
theorem keeps_spectrum {P : Studio α → Prop}
    (hfresh : ∀ s : Studio α, P s → P { s with next := s.next + 1 })
    (hstore : ∀ (s : Studio α) (block id : ℕ), P s → P { s with
      spectra := ((k.id, block), ⟨id, k.spectrumAt block⟩) :: s.spectra })
    (size : Option ℤ) : Keeps P (spectrum k size) := by
  refine (keeps_ofExcept _).bind fun block => keeps_get.bind fun s => ?_
  split
  · exact keeps_pure _
  · refine keeps_get.bind fun _ => (keeps_ofExcept _).bind fun _ => Keeps.bind hfresh fun id => ?_
    exact (keeps_modify fun s hs => hstore s block id hs).bind fun _ => keeps_pure _

/-- Asking for the spectrum of a kernel that has been made. -/
theorem keeps_sound_spectrum (hk : k ∈ made) (size : Option ℤ) :
    Keeps (Sound made) (spectrum k size) :=
  keeps_spectrum (fun _ hs => hs.quiet ⟨rfl, fun _ h => h, Nat.le_succ _, rfl⟩)
    (fun _ block id hs => hs.store hk block id) size

theorem reels_spectrum (k : Kernel α) (size : Option ℤ) (s : Studio α) :
    (spectrum k size s).2.reels = s.reels :=
  keeps_spectrum (P := fun s' => s'.reels = s.reels) (fun _ hs => hs) (fun _ _ _ hs => hs) size s rfl

/-- The kernel of a filter, if it has one, has been made. -/
def IsMade (made : List (Kernel α)) : Filter α → Prop
  | .kernel k => k ∈ made
  | .bare _ => True

theorem keeps_filterSpectrum {f : Filter α} (hf : IsMade made f) :
    Keeps (Sound made) (filterSpectrum f) := by
  cases f with
  | kernel k => exact (keeps_sound_spectrum hf none).bind fun _ => keeps_pure _
  | bare bins => exact keeps_pure _

theorem keeps_filtered {f : Filter α} (hf : IsMade made f) (r : Reel α) (overlapAdd : Given Bool) :
    Keeps (Sound made) (filtered r f overlapAdd) :=
  (keeps_filterSpectrum hf).bind fun _ => (keeps_ofExcept _).bind fun _ =>
    (keeps_enter _).bind fun _ => keeps_pure _

theorem keeps_convolve {f : Filter α} (hf : IsMade made f) (reel : ℕ) (overlapAdd : Given Bool) :
    Keeps (Sound made) (convolve reel f overlapAdd) := by
  refine Keeps.bind keeps_get fun s => ?_
  split
  · exact keeps_pure _
  · refine (keeps_filtered hf _ overlapAdd).bind fun changed => ?_
    exact keeps_modify fun s hs => hs.quiet ⟨rfl, fun _ h => h, Nat.le_refl _, rfl⟩

/-- A kernel that is read from a file counts as made; one that is on the shelf was made before. -/
theorem sound_loadKernel (hs : Sound made s) {p : FilePath}
    (hk : (loadKernel p s).1.result = .ok k) : Sound (k :: made) (loadKernel p s).2 := by
  unfold loadKernel at hk ⊢
  cases hzero : p.holdsZero with
  | true => rw [hzero] at hk; cases hk
  | false =>
    simp only [hzero, Bool.false_eq_true, if_false, get_bind] at hk ⊢
    cases hl : s.shelf.lookup (s.folder.resolve p) with
    | some known =>
      -- on the shelf: the kernel was made before, and nothing changes
      obtain ⟨before, after, hsplit, -⟩ := List.lookup_eq_some_iff.1 hl
      simp only [hl] at hk ⊢
      cases hk
      exact hs.count (hs.shelf (s.folder.resolve p, k) (by simp [hsplit]))
    | none =>
      -- read from the file: a kernel with a new identity, which is then shelved
      have hmakes : Makes (kernelOfFile (α := α) (Folder.fullPath (s.folder.resolve p))
        (s.folder.read ⟨"/", s.folder.resolve p⟩)) := makes_kernelOfFile _ _
      simp only [hl] at hk ⊢
      cases hr : (kernelOfFile (α := α) (Folder.fullPath (s.folder.resolve p))
        (s.folder.read ⟨"/", s.folder.resolve p⟩) s).1.result with
      | error e => rw [bind_error hr] at hk; cases hk
      | ok k' =>
        rw [bind_ok hr] at hk ⊢
        cases hk
        obtain ⟨hfresh, hused⟩ := hmakes.fresh hr
        exact (hs.make (hmakes.quiet.apply s) hfresh hused).shelve List.mem_cons_self _

end Session

/-! ### Studios that can be reached -/

/-- **Studios that can be reached**, whatever the size of the memory, with the kernels that have been
made on the way. -/
inductive Studio.Reached : List (Kernel α) → Studio α → Prop
  | opened (folder : Folder) (memory : ℕ) : Reached [] (Studio.empty folder memory)
  -- everything that is not about kernels and spectra
  | quiet {made s s'} : Reached made s → s.Quiet s' → Reached made s'
  | make {made s m k} : Reached made s → Session.Makes m → (m s).1.result = .ok k →
      Reached (k :: made) (m s).2
  | load {made s k} (p : FilePath) : Reached made s → (Session.loadKernel p s).1.result = .ok k →
      Reached (k :: made) (Session.loadKernel p s).2
  | spectrum {made s k} (size : Option ℤ) : Reached made s → k ∈ made →
      Reached made (Session.spectrum k size s).2
  | filtered {made s f} (r : Reel α) (overlapAdd : Given Bool) : Reached made s →
      Session.IsMade made f → Reached made (Session.filtered r f overlapAdd s).2
  | convolve {made s f} (reel : ℕ) (overlapAdd : Given Bool) : Reached made s →
      Session.IsMade made f → Reached made (Session.convolve reel f overlapAdd s).2

/-- **Every studio that can be reached is sound.** -/
theorem Studio.Reached.sound {made : List (Kernel α)} {s : Studio α} (h : Reached made s) :
    Sound made s := by
  induction h with
  | opened folder memory => exact sound_empty folder memory
  | quiet _ hq ih => exact ih.quiet hq
  | make _ hm hk ih => exact ih.make (hm.quiet.apply _) (hm.fresh hk).1 (hm.fresh hk).2
  | load p _ hk ih => exact Session.sound_loadKernel ih hk
  | spectrum size _ hk ih => exact Session.keeps_sound_spectrum hk size _ ih
  | filtered r overlapAdd _ hf ih => exact Session.keeps_filtered hf r overlapAdd _ ih
  | convolve reel overlapAdd _ hf ih => exact Session.keeps_convolve hf reel overlapAdd _ ih

namespace Session

variable {made : List (Kernel α)} {s : Studio α} {k : Kernel α}

omit [Scalar α] in
theorem fitBlock_blockSize (k : Kernel α) : k.fitBlock k.blockSize = .ok k.blockSize := by
  have h : ¬((k.blockSize : ℤ) < k.samples.size ∨ (k.blockSize : ℤ) % 2 ≠ 0) := by
    rw [Kernel.blockSize]
    omega
  rw [Kernel.fitBlock, if_neg h, Int.toNat_natCast]

/-- **The answer for a spectrum** does not depend on what has been stored before, except that a
spectrum that is there already needs no room. -/
theorem spectrum_result (hs : Studio.Sound made s) (hk : k ∈ made) :
    (∃ known, (spectrum k none s).1.result = .ok known ∧
      known.spectrum = k.spectrumAt k.blockSize) ∨
    ∃ fault, Room.forBins s.memory (k.samples.size + 1) = .error fault ∧
      (spectrum k none s).1.result = .error (.noArray fault) := by
  have hbins : k.blockSize / 2 + 1 = k.samples.size + 1 := by rw [Kernel.blockSize]; omega
  rw [spectrum, Option.getD_none, fitBlock_blockSize, ofExcept_ok_bind, get_bind]
  cases hl : s.spectra.lookup (k.id, k.blockSize) with
  | some known => exact .inl ⟨known, rfl, hs.lookup hk hl⟩
  | none =>
    dsimp only
    rw [get_bind, hbins]
    cases hroom : Room.forBins s.memory (k.samples.size + 1) with
    | error fault => exact .inr ⟨fault, rfl, rfl⟩
    | ok _ => exact .inl ⟨⟨s.next, k.spectrumAt k.blockSize⟩, rfl, rfl⟩

end Session

end Polyphony
