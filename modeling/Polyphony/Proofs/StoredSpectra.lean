import Polyphony.Proofs.Filtering

/-!
# Stored spectra make no difference

Spectra are stored when they are first asked for. What is asked for is answered as if nothing had been
stored, and a reel that cannot be filtered stays as it is.

* `Kernel.answer`, `Filter.outcome`: the answers of a studio that has stored nothing.
* `Session.spectrum_cases`: what asking for a spectrum can do. A spectrum is stored only where there is
  none and there is room for it (`Session.Storable`).
* `Studio.Later`: the studios that a studio can become. A stored spectrum stays, and the memory is the same.
* `Session.result_spectrum`, `Session.result_filtered`: **the answers are those of a studio that has
  stored nothing.**
* `Convolution.Fits`: the sizes of all arrays that a convolution puts together fit.
* `Session.spectra_transparent`: all of it, for every studio that can be reached.
-/

namespace Polyphony

variable {α : Type} [Scalar α]

/-! ### Answers without a store -/

/-- **The answer for a spectrum** of a studio with some memory that has stored nothing. -/
def Kernel.answer (k : Kernel α) (memory : ℕ) (size : ℤ) : Except (Fault α) (Spectrum α) := do
  let block ← k.fitBlock size
  (Room.forBins memory (block / 2 + 1)).mapError .noArray
  return k.spectrumAt block

/-- The spectrum that a filter brings. -/
def Filter.bins (memory : ℕ) : Filter α → Except (Fault α) (Spectrum α)
  | .kernel k => k.answer memory k.blockSize
  | .bare bins => .ok bins

/-- **The outcome of filtering a buffer** in a studio with some memory that has stored nothing: the
samples, and the block size. -/
def Filter.outcome (f : Filter α) (memory : ℕ) (overlapAdd : Bool) (x : Array α) :
    Except (Fault α) (Array α × ℕ) := do
  f.apply (← f.bins memory) overlapAdd x

/-- **A filter that is refused**: a bare spectrum that is too short for a block, or one whose overlaps
are to be added. -/
def Filter.Refused (f : Filter α) (overlapAdd : Bool) : Prop :=
  ∃ bins, f = .bare bins ∧ (bins.size < 2 ∨ overlapAdd = true)

/-- By how many samples a segment is shorter than the block: what a kernel leaves of itself behind the
segment, if that is to be added to the next one. -/
def Filter.tail : Filter α → Bool → ℕ
  | .kernel k, true => k.samples.size - 1
  | _, _ => 0

namespace Kernel

variable {k : Kernel α} {memory : ℕ} {size : ℤ}

omit [Scalar α] in
theorem fitBlock_eq_error_iff {fault : Fault α} : k.fitBlock size = .error fault ↔
    (size % 2 ≠ 0 ∨ size < k.samples.size) ∧ fault = .unfitBlock k.samples.size size := by
  rw [fitBlock, or_comm (a := size % 2 ≠ 0)]
  split_ifs with h
  · rw [and_iff_right h, Except.error.injEq, eq_comm]
  · constructor
    · intro hfault
      cases hfault
    · intro h'
      exact absurd h'.1 h

omit [Scalar α] in
theorem fitBlock_eq_ok_iff {block : ℕ} : k.fitBlock size = .ok block ↔
    (block % 2 = 0 ∧ k.samples.size ≤ block) ∧ size = block := by
  rw [fitBlock]
  split_ifs with h
  · constructor
    · intro hok
      cases hok
    · omega
  · rw [Except.ok.injEq]
    omega

/-- A block that suits the kernel is answered, given room. -/
theorem answer_of_fits {block : ℕ} (hsize : size = block) (heven : block % 2 = 0)
    (hlong : k.samples.size ≤ block) : k.answer memory size =
      ((Room.forBins memory (block / 2 + 1)).mapError .noArray).map fun _ => k.spectrumAt block := by
  rw [answer, fitBlock_eq_ok_iff.2 ⟨⟨heven, hlong⟩, hsize⟩]
  rfl

/-- **How asking for a spectrum ends**: the block is refused, or there is no room, or the spectrum is
that of the kernel. -/
theorem answer_cases (k : Kernel α) (memory : ℕ) (size : ℤ) :
    ((size % 2 ≠ 0 ∨ size < k.samples.size) ∧
      k.answer memory size = .error (.unfitBlock k.samples.size size)) ∨
    ∃ block : ℕ, size = block ∧ block % 2 = 0 ∧ k.samples.size ≤ block ∧
      ((∃ fault, Room.forBins memory (block / 2 + 1) = .error fault ∧
        k.answer memory size = .error (.noArray fault)) ∨
      Room.forBins memory (block / 2 + 1) = .ok () ∧
        k.answer memory size = .ok (k.spectrumAt block)) := by
  cases hfit : k.fitBlock size with
  | error fault =>
    obtain ⟨hunfit, rfl⟩ := fitBlock_eq_error_iff.1 hfit
    exact .inl ⟨hunfit, by rw [answer, hfit]; rfl⟩
  | ok block =>
    obtain ⟨⟨heven, hlong⟩, hsize⟩ := fitBlock_eq_ok_iff.1 hfit
    refine .inr ⟨block, hsize, heven, hlong, ?_⟩
    rw [answer_of_fits hsize heven hlong]
    cases Room.forBins memory (block / 2 + 1) with
    | error fault => exact .inl ⟨fault, rfl, rfl⟩
    | ok _ => exact .inr ⟨rfl, rfl⟩

end Kernel

/-! ### Asking for a spectrum -/

namespace Session

/-- **What asking for a spectrum can do**: refuse the block, look the spectrum up, find no room for it,
or compute it and store it under a new identity. -/
theorem spectrum_cases (k : Kernel α) (size : Option ℤ) (s : Studio α) :
    (∃ fault, k.fitBlock (size.getD k.blockSize) = .error fault ∧
      spectrum k size s = (⟨[], .error fault⟩, s)) ∨
    ∃ block, k.fitBlock (size.getD k.blockSize) = .ok block ∧
      ((∃ known, s.spectra.lookup (k.id, block) = some known ∧
        spectrum k size s = (⟨[], .ok known⟩, s)) ∨
      (∃ fault, s.spectra.lookup (k.id, block) = none ∧
        Room.forBins s.memory (block / 2 + 1) = .error fault ∧
        spectrum k size s = (⟨[], .error (.noArray fault)⟩, s)) ∨
      s.spectra.lookup (k.id, block) = none ∧ Room.forBins s.memory (block / 2 + 1) = .ok () ∧
        spectrum k size s = (⟨[], .ok ⟨s.next, k.spectrumAt block⟩⟩, { s with
          next := s.next + 1
          spectra := ((k.id, block), ⟨s.next, k.spectrumAt block⟩) :: s.spectra })) := by
  rw [spectrum]
  cases k.fitBlock (size.getD k.blockSize) with
  | error fault => exact .inl ⟨fault, rfl, rfl⟩
  | ok block =>
    refine .inr ⟨block, rfl, ?_⟩
    rw [ofExcept_ok_bind, get_bind]
    cases hl : s.spectra.lookup (k.id, block) with
    | some known => exact .inl ⟨known, rfl, rfl⟩
    | none =>
      dsimp only
      rw [get_bind]
      cases hroom : Room.forBins s.memory (block / 2 + 1) with
      | error fault => exact .inr (.inl ⟨fault, rfl, rfl, rfl⟩)
      | ok _ => exact .inr (.inr ⟨rfl, rfl, rfl⟩)

/-- **A property of what is stored that storing keeps**, given some memory. A spectrum is stored only
under a key that has none, and only if there is room for it. -/
def Storable (memory : ℕ) (Q : List ((ℕ × ℕ) × StoredSpectrum α) → Prop) : Prop :=
  ∀ spectra key known, Q spectra → spectra.lookup key = none →
    Room.forBins memory (key.2 / 2 + 1) = .ok () → Q ((key, known) :: spectra)

/-- A studio with so much memory that has stored what has a property. -/
def Stores (memory : ℕ) (Q : List ((ℕ × ℕ) × StoredSpectrum α) → Prop) (s : Studio α) : Prop :=
  s.memory = memory ∧ Q s.spectra

variable {memory : ℕ} {Q : List ((ℕ × ℕ) × StoredSpectrum α) → Prop}

omit [Scalar α] in
/-- There is room for every spectrum that is stored. -/
theorem storable_room : Storable memory fun spectra : List ((ℕ × ℕ) × StoredSpectrum α) =>
    ∀ entry ∈ spectra, Room.forBins memory (entry.1.2 / 2 + 1) = .ok () := by
  intro spectra key known hQ _ hroom entry he
  rcases List.mem_cons.1 he with rfl | he
  · exact hroom
  · exact hQ entry he

omit [Scalar α] in
/-- A spectrum that is stored can be looked up. -/
theorem storable_lookup (key : ℕ × ℕ) (known : StoredSpectrum α) :
    Storable memory fun spectra => spectra.lookup key = some known := by
  intro spectra key' known' hQ hnone _
  -- what is stored next has another key, since this one was found
  have hne : key ≠ key' := by
    rintro rfl
    rw [hnone] at hQ
    cases hQ
  rw [List.lookup_cons, beq_false_of_ne hne]
  exact hQ

theorem Storable.keeps_spectrum (hQ : Storable memory Q) (k : Kernel α) (size : Option ℤ) :
    Keeps (Stores memory Q) (spectrum k size) := by
  rintro s ⟨rfl, hs⟩
  obtain ⟨_, -, h⟩ | ⟨block, -, ⟨_, -, h⟩ | ⟨_, -, -, h⟩ | ⟨hnone, hroom, h⟩⟩ :=
    spectrum_cases k size s <;> rw [h]
  · exact ⟨rfl, hs⟩
  · exact ⟨rfl, hs⟩
  · exact ⟨rfl, hs⟩
  · exact ⟨rfl, hQ _ _ _ hs hnone hroom⟩

theorem Storable.keeps_filtered (hQ : Storable memory Q) (r : Reel α) (f : Filter α)
    (overlapAdd : Given Bool) : Keeps (Stores memory Q) (filtered r f overlapAdd) := by
  refine Keeps.bind ?_ fun _ => (keeps_ofExcept _).bind fun _ => (keeps_enter _).bind fun _ =>
    keeps_pure _
  cases f with
  | kernel k => exact (hQ.keeps_spectrum k none).bind fun _ => keeps_pure _
  | bare bins => exact keeps_pure _

theorem Storable.keeps_convolve (hQ : Storable memory Q) (reel : ℕ) (f : Filter α)
    (overlapAdd : Given Bool) : Keeps (Stores memory Q) (convolve reel f overlapAdd) := by
  refine Keeps.bind keeps_get fun s => ?_
  split
  · exact keeps_pure _
  · exact (hQ.keeps_filtered _ f overlapAdd).bind fun _ => keeps_modify fun _ hs => hs

theorem IsQuiet.keeps_stores {β : Type} {m : Session α β} (hm : IsQuiet m) : Keeps (Stores memory Q) m := by
  intro s hs
  have hquiet := hm.apply s
  exact ⟨hquiet.memory.trans hs.1, by rw [hquiet.spectra]; exact hs.2⟩

/-- Loading a kernel leaves the spectra as they are. -/
theorem keeps_stores_loadKernel (p : FilePath) :
    Keeps (Stores memory Q) (loadKernel p : Session α (Kernel α)) := by
  unfold loadKernel
  split
  · exact keeps_throw _
  · refine keeps_get.bind fun s => keeps_get.bind fun s' => ?_
    split
    · exact (keeps_enter _).bind fun _ => keeps_pure _
    · refine (makes_kernelOfFile _ _).quiet.keeps_stores.bind fun k => ?_
      exact Keeps.bind (keeps_modify fun s hs => hs) fun _ => keeps_pure k

end Session

namespace Studio

/-- **What a studio can become** by any operations, whether they fail or not. -/
inductive Later (s : Studio α) : Studio α → Prop
  | refl : Later s s
  -- everything that stores no spectrum and shelves no kernel
  | quiet {s' s''} : Later s s' → s'.Quiet s'' → Later s s''
  | load {s'} (p : FilePath) : Later s s' → Later s (Session.loadKernel p s').2
  | spectrum {s'} (k : Kernel α) (size : Option ℤ) : Later s s' → Later s (Session.spectrum k size s').2
  | filtered {s'} (r : Reel α) (f : Filter α) (overlapAdd : Given Bool) : Later s s' →
      Later s (Session.filtered r f overlapAdd s').2
  | convolve {s'} (reel : ℕ) (f : Filter α) (overlapAdd : Given Bool) : Later s s' →
      Later s (Session.convolve reel f overlapAdd s').2

/-- A studio with one kernel and one reel can be reached, with any memory. -/
theorem exists_reached {x : Array α} (hx : 0 < x.size) (r : Reel α) (memory : ℕ) :
    ∃ (k : Kernel α) (s : Studio α), k.samples = x ∧ Reached [k] s ∧ s.reels = #[r] ∧
      s.memory = memory := by
  let s₀ : Studio α := Studio.empty (.empty []) memory
  have hmade : (Session.kernel x none s₀).1.result = .ok ⟨s₀.next, x, none, hx⟩ := by
    rw [Session.kernel, Session.fresh_bind, Kernel.ofSamples, dif_pos hx]
    rfl
  refine ⟨⟨s₀.next, x, none, hx⟩, { (Session.kernel x none s₀).2 with reels := #[r] }, rfl, ?_, rfl, rfl⟩
  exact (Reached.make (.opened _ _) (Session.makes_kernel _ _) hmade).quiet
    ⟨rfl, fun _ h => h, Nat.le_refl _, rfl⟩

variable {made : List (Kernel α)} {s s' : Studio α}

/-- What storing keeps, every later studio has. The memory stays as large as it is. -/
theorem Later.keeps {Q : List ((ℕ × ℕ) × StoredSpectrum α) → Prop} (h : Later s s')
    (hQ : Session.Storable s.memory Q) (hs : Q s.spectra) : Session.Stores s.memory Q s' := by
  induction h with
  | refl => exact ⟨rfl, hs⟩
  | quiet _ hq ih => exact ⟨hq.memory.trans ih.1, hq.spectra ▸ ih.2⟩
  | load p _ ih => exact Session.keeps_stores_loadKernel p _ ih
  | spectrum k size _ ih => exact hQ.keeps_spectrum k size _ ih
  | filtered r f overlapAdd _ ih => exact hQ.keeps_filtered r f overlapAdd _ ih
  | convolve reel f overlapAdd _ ih => exact hQ.keeps_convolve reel f overlapAdd _ ih

theorem Reached.later (h : Reached made s) :
    ∃ folder memory, Later (Studio.empty folder memory) s := by
  induction h with
  | opened folder memory => exact ⟨folder, memory, .refl⟩
  | quiet _ hq ih => exact ih.imp fun _ => .imp fun _ h => h.quiet hq
  | make _ hm _ ih => exact ih.imp fun _ => .imp fun _ h => h.quiet (hm.quiet.apply _)
  | load p _ _ ih => exact ih.imp fun _ => .imp fun _ h => h.load p
  | spectrum size _ _ ih => exact ih.imp fun _ => .imp fun _ h => h.spectrum _ size
  | filtered r overlapAdd _ _ ih => exact ih.imp fun _ => .imp fun _ h => h.filtered r _ overlapAdd
  | convolve reel overlapAdd _ _ ih =>
    exact ih.imp fun _ => .imp fun _ h => h.convolve reel _ overlapAdd

/-- **There is room for whatever is stored.** -/
theorem Reached.room (h : Reached made s) {key : ℕ × ℕ} {known : StoredSpectrum α}
    (hl : s.spectra.lookup key = some known) : Room.forBins s.memory (key.2 / 2 + 1) = .ok () := by
  obtain ⟨folder, memory, hlater⟩ := h.later
  obtain ⟨hmemory, hroom⟩ := hlater.keeps Session.storable_room (by simp [Studio.empty])
  obtain ⟨before, after, hsplit, -⟩ := List.lookup_eq_some_iff.1 hl
  rw [hmemory]
  exact hroom (key, known) (by simp [hsplit])

end Studio

/-! ### Stored spectra make no difference -/

namespace Session

variable {made : List (Kernel α)} {s s' : Studio α} {k : Kernel α}

/-- **A spectrum is answered as if nothing had been stored.** -/
theorem result_spectrum (hs : Studio.Reached made s) (hk : k ∈ made) (size : Option ℤ) :
    (spectrum k size s).1.result.map StoredSpectrum.spectrum =
      k.answer s.memory (size.getD k.blockSize) := by
  obtain ⟨fault, hfit, h⟩ | ⟨block, hfit, hcases⟩ := spectrum_cases k size s
  · rw [h, Kernel.answer, hfit]
    rfl
  · obtain ⟨⟨heven, hlong⟩, hsize⟩ := Kernel.fitBlock_eq_ok_iff.1 hfit
    rw [Kernel.answer_of_fits hsize heven hlong]
    obtain ⟨known, hl, h⟩ | ⟨fault, -, hroom, h⟩ | ⟨-, hroom, h⟩ := hcases
    · -- what is stored is that of the kernel, and there was room for it
      rw [h, hs.room hl, ← hs.sound.lookup hk hl]
      rfl
    · rw [h, hroom]
      rfl
    · rw [h, hroom]
      rfl

/-- What a studio without a store cannot answer, no studio answers. -/
theorem spectrum_of_fault (hs : Studio.Reached made s) (hk : k ∈ made) (size : Option ℤ)
    {fault : Fault α} (h : k.answer s.memory (size.getD k.blockSize) = .error fault) :
    (spectrum k size s).1.result = .error fault := by
  rw [← result_spectrum hs hk] at h
  cases hr : (spectrum k size s).1.result <;> rw [hr] at h <;> cases h
  rfl

/-- What it can answer, every studio answers. -/
theorem spectrum_of_answer (hs : Studio.Reached made s) (hk : k ∈ made) (size : Option ℤ)
    {bins : Spectrum α} (h : k.answer s.memory (size.getD k.blockSize) = .ok bins) :
    ∃ known, (spectrum k size s).1.result = .ok known ∧ known.spectrum = bins := by
  rw [← result_spectrum hs hk] at h
  cases hr : (spectrum k size s).1.result <;> rw [hr] at h <;> cases h
  exact ⟨_, rfl, rfl⟩

/-- **A spectrum that was given once is given again**, the same one, in every later studio. -/
theorem spectrum_again {size size' : Option ℤ} (hsame : size'.getD k.blockSize = size.getD k.blockSize)
    {known : StoredSpectrum α} (h : (spectrum k size s).1.result = .ok known)
    (hlater : (spectrum k size s).2.Later s') : spectrum k size' s' = (⟨[], .ok known⟩, s') := by
  -- asking for it has left it in the store
  have hstored : ∃ block, k.fitBlock (size.getD k.blockSize) = .ok block ∧
      (spectrum k size s).2.spectra.lookup (k.id, block) = some known := by
    obtain ⟨_, -, h'⟩ | ⟨block, hfit, ⟨_, hl, h'⟩ | ⟨_, -, -, h'⟩ | ⟨-, -, h'⟩⟩ :=
      spectrum_cases k size s <;> rw [h'] at h ⊢ <;> cases h
    · exact ⟨block, hfit, hl⟩
    · exact ⟨block, hfit, List.lookup_cons_self⟩
  obtain ⟨block, hfit, hl⟩ := hstored
  obtain ⟨-, hl'⟩ := hlater.keeps (storable_lookup _ known) hl
  rw [spectrum, hsame, hfit, ofExcept_ok_bind, get_bind]
  simp only [hl']
  rfl

theorem result_filterSpectrum (hs : Studio.Reached made s) {f : Filter α} (hf : IsMade made f) :
    (filterSpectrum f s).1.result = f.bins s.memory := by
  cases f with
  | kernel k =>
    rw [filterSpectrum, Filter.bins]
    cases h : k.answer s.memory k.blockSize with
    | error fault => rw [bind_error (spectrum_of_fault hs hf none h)]
    | ok bins =>
      obtain ⟨known, hknown, rfl⟩ := spectrum_of_answer hs hf none h
      rw [bind_ok hknown]
      rfl
  | bare bins => rfl

/-- **A reel is filtered as if nothing had been stored.** -/
theorem result_filtered (hs : Studio.Reached made s) {f : Filter α} (hf : IsMade made f) (r : Reel α)
    (overlapAdd : Given Bool) : (filtered r f overlapAdd s).1.result =
      (f.outcome s.memory overlapAdd.holds r.samples).map fun out => { r with samples := out.1 } := by
  have hbins := result_filterSpectrum hs hf
  rw [filtered, Filter.outcome]
  cases hb : f.bins s.memory with
  | error fault => rw [bind_error (hbins.trans hb)]; rfl
  | ok bins =>
    rw [bind_ok (hbins.trans hb)]
    simp only [bind, Except.bind]
    cases ha : f.apply bins overlapAdd.holds r.samples with
    | error fault => rfl
    | ok out => rfl

/-- A filter with an outcome leaves it in the reel. -/
theorem convolve_of_outcome (hs : Studio.Reached made s) {f : Filter α} (hf : IsMade made f)
    {reel : ℕ} {r : Reel α} (hr : s.reels[reel]? = some r) (overlapAdd : Given Bool)
    {out : Array α × ℕ} (h : f.outcome s.memory overlapAdd.holds r.samples = .ok out) :
    (convolve reel f overlapAdd s).1.result = .ok () ∧
      (convolve reel f overlapAdd s).2.reels =
        s.reels.setIfInBounds reel { r with samples := out.1 } := by
  have hfiltered := result_filtered hs hf r overlapAdd
  rw [h] at hfiltered
  exact convolve_of_filtered hr hfiltered

/-- A filter without one leaves all reels alone. -/
theorem convolve_of_fault (hs : Studio.Reached made s) {f : Filter α} (hf : IsMade made f)
    {reel : ℕ} {r : Reel α} (hr : s.reels[reel]? = some r) (overlapAdd : Given Bool) {fault : Fault α}
    (h : f.outcome s.memory overlapAdd.holds r.samples = .error fault) :
    (convolve reel f overlapAdd s).1.result = .error fault ∧
      (convolve reel f overlapAdd s).2.reels = s.reels := by
  have hfiltered := result_filtered hs hf r overlapAdd
  rw [h] at hfiltered
  exact convolve_of_filtered_error hr hfiltered

end Session

/-! ### Outcomes -/

/-- **All sizes of a convolution fit.** No length is divided by zero, the buffer fits into the padded
one, each segment has as many coefficients as the spectrum, and no filtered segment reaches beyond
the end of the output. -/
structure Convolution.Fits (bins : Spectrum α) (block tail : ℕ) (x : Array α) : Prop where
  block_pos : 0 < block
  hop_pos : 0 < block - tail
  padded : x.size ≤ segmentCount x.size (block - tail) * (block - tail)
  coefficients : ∀ part ∈ segments x (block - tail),
    (Spectrum.forward (Spectrum.circle block) part).size = bins.size
  filtered : ∀ part ∈ segments x (block - tail),
    (filtered (Spectrum.circle block) bins part).size = block
  ends : ∀ i < segmentCount x.size (block - tail),
    i * (block - tail) + block ≤ segmentCount x.size (block - tail) * (block - tail) + tail

theorem Convolution.fits {bins : Spectrum α} {tail : ℕ} (hbins : 2 ≤ bins.size)
    (htail : tail < 2 * (bins.size - 1)) (x : Array α) : Fits bins (2 * (bins.size - 1)) tail x where
  block_pos := by omega
  hop_pos := by omega
  padded := le_segmentCount_mul x.size (by omega)
  coefficients := by
    intro part _
    rw [Spectrum.size_forward]
    show 2 * (bins.size - 1) / 2 + 1 = bins.size
    omega
  filtered := fun part _ => Spectrum.size_inverse _ _
  ends := by
    -- a block reaches beyond its hop by the tail, and the last one beyond the buffer by no more
    intro i hi
    have hnext := Nat.mul_le_mul_right (2 * (bins.size - 1) - tail) (Nat.succ_le_of_lt hi)
    rw [Nat.succ_mul] at hnext
    omega

namespace Filter

variable {f : Filter α} {overlapAdd : Bool} {memory : ℕ}

omit [Scalar α] in
theorem not_refused_kernel (k : Kernel α) : ¬ Refused (.kernel k) overlapAdd := by
  rintro ⟨bins, hbins, -⟩
  cases hbins

/-- A bare spectrum that is refused gives no samples. -/
theorem apply_of_refused {bins : Spectrum α} (h : bins.size < 2 ∨ overlapAdd = true) (x : Array α) :
    ∃ fault, apply (.bare bins) bins overlapAdd x = .error fault ∧ fault.kind = .render := by
  rw [apply]
  by_cases hshort : 2 * (bins.size - 1) < 2
  · exact ⟨_, if_pos hshort, rfl⟩
  · obtain rfl : overlapAdd = true := h.resolve_left (by omega)
    exact ⟨_, if_neg hshort, rfl⟩

/-- Any other filter applies, given two coefficients. -/
theorem apply_of_not_refused {bins : Spectrum α} (hbins : 2 ≤ bins.size)
    (h : ¬ f.Refused overlapAdd) (x : Array α) :
    ∃ z, f.apply bins overlapAdd x = .ok (z, 2 * (bins.size - 1)) := by
  have hlong : ¬ 2 * (bins.size - 1) < 2 := by omega
  cases overlapAdd with
  | false => exact ⟨_, if_neg hlong⟩
  | true =>
    cases f with
    | kernel k => exact ⟨_, if_neg hlong⟩
    | bare bins' => exact absurd ⟨bins', rfl, .inr rfl⟩ h

/-- The spectrum that a kernel brings, if there is room for it, has a coefficient more than the kernel
has samples. -/
theorem bins_kernel (k : Kernel α) :
    (∃ fault, Room.forBins memory (k.samples.size + 1) = .error fault ∧
      bins memory (.kernel k) = .error (.noArray fault)) ∨
    Room.forBins memory (k.samples.size + 1) = .ok () ∧
      bins memory (.kernel k) = .ok (k.spectrumAt k.blockSize) := by
  have hhalf : k.blockSize / 2 + 1 = k.samples.size + 1 := by rw [Kernel.blockSize]; omega
  obtain ⟨⟨heven, hlong⟩, hsize⟩ := Kernel.fitBlock_eq_ok_iff.1 (Session.fitBlock_blockSize k)
  rw [bins, Kernel.answer_of_fits hsize heven hlong, hhalf]
  cases Room.forBins memory (k.samples.size + 1) with
  | error fault => exact .inl ⟨fault, rfl, rfl⟩
  | ok _ => exact .inr ⟨rfl, rfl⟩

theorem size_spectrumAt_blockSize (k : Kernel α) :
    (k.spectrumAt k.blockSize).size = k.samples.size + 1 := by
  rw [size_spectrumAt, Kernel.blockSize]
  omega

/-- **How filtering ends**: the filter is refused, or there is no room for the spectrum of its kernel,
or there are samples, and then all sizes fit. -/
theorem outcome_cases (f : Filter α) (memory : ℕ) (overlapAdd : Bool) (x : Array α) :
    (f.Refused overlapAdd ∧
      ∃ fault, f.outcome memory overlapAdd x = .error fault ∧ fault.kind = .render) ∨
    ¬ f.Refused overlapAdd ∧
      ((∃ k fault, f = .kernel k ∧ Room.forBins memory (k.samples.size + 1) = .error fault ∧
        f.outcome memory overlapAdd x = .error (.noArray fault)) ∨
      ∃ bins z, f.bins memory = .ok bins ∧
        Convolution.Fits bins (2 * (bins.size - 1)) (f.tail overlapAdd) x ∧
        f.outcome memory overlapAdd x = .ok (z, 2 * (bins.size - 1))) := by
  cases f with
  | kernel k =>
    refine .inr ⟨not_refused_kernel k, ?_⟩
    rw [outcome]
    obtain ⟨fault, hroom, hbins⟩ | ⟨-, hbins⟩ := bins_kernel k <;> rw [hbins]
    · exact .inl ⟨k, fault, rfl, hroom, rfl⟩
    · have hpos := k.nonempty
      have hsize := size_spectrumAt_blockSize k
      have htail : tail (.kernel k) overlapAdd < 2 * ((k.spectrumAt k.blockSize).size - 1) := by
        cases overlapAdd <;> simp only [tail, hsize] <;> omega
      have hbins : 2 ≤ (k.spectrumAt k.blockSize).size := by omega
      obtain ⟨z, hz⟩ := apply_of_not_refused hbins (not_refused_kernel k) x
      exact .inr ⟨_, z, rfl, Convolution.fits hbins htail x, hz⟩
  | bare bins =>
    by_cases h : bins.size < 2 ∨ overlapAdd = true
    · exact .inl ⟨⟨bins, rfl, h⟩, apply_of_refused h x⟩
    · have hrefused : ¬ Refused (.bare bins) overlapAdd := by
        rintro ⟨bins', hbins', h'⟩
        cases hbins'
        exact h h'
      have hbins : 2 ≤ bins.size := by omega
      obtain ⟨z, hz⟩ := apply_of_not_refused hbins hrefused x
      have htail : tail (.bare bins) overlapAdd < 2 * (bins.size - 1) := by
        cases overlapAdd <;> simp only [tail] <;> omega
      exact .inr ⟨hrefused, .inr ⟨bins, z, rfl, Convolution.fits hbins htail x, hz⟩⟩

/-- Of a kernel only the samples count. -/
theorem outcome_congr {k k' : Kernel α} (h : k'.samples = k.samples) (overlapAdd : Bool)
    (x : Array α) :
    outcome (.kernel k') memory overlapAdd x = outcome (.kernel k) memory overlapAdd x := by
  obtain ⟨id, samples, name, hpos⟩ := k
  obtain ⟨id', samples', name', hpos'⟩ := k'
  cases h
  rfl

end Filter

/-! ### The promise -/

namespace Session

/-- **What is promised of a spectrum.** A block that is odd or shorter than the kernel is refused, and no
other block is; given room, the answer is the spectrum of the kernel, and it is the same one for good;
no reel changes. -/
structure Answers (k : Kernel α) (size : Option ℤ) (s : Studio α) : Prop where
  refused : (∃ fault, (spectrum k size s).1.result = .error fault ∧ fault.kind = .configuration) ↔
    size.getD k.blockSize % 2 ≠ 0 ∨ size.getD k.blockSize < k.samples.size
  given : ∀ block : ℕ, size.getD k.blockSize = block → block % 2 = 0 → k.samples.size ≤ block →
    Room.forBins s.memory (block / 2 + 1) = .ok () →
      ∃ known, (spectrum k size s).1.result = .ok known ∧ known.spectrum = k.spectrumAt block
  again : ∀ known, (spectrum k size s).1.result = .ok known → ∀ s' size',
    (spectrum k size s).2.Later s' → size'.getD (k.blockSize : ℤ) = size.getD k.blockSize →
      (spectrum k size' s').1.result = .ok known
  noRoom : ∀ (block : ℕ) (fault : SizeFault), size.getD k.blockSize = block → block % 2 = 0 →
    k.samples.size ≤ block → Room.forBins s.memory (block / 2 + 1) = .error fault →
      (spectrum k size s).1.result = .error (.noArray fault)
  reels : (spectrum k size s).2.reels = s.reels

/-- **What is promised of a filter.** It is refused if it is bare and too short, or bare and its overlaps
are to be added, and in no other case; a filter that fails, for this reason or since there is no room
for the spectrum of its kernel, changes no reel; one that does not changes the samples of its reel and
nothing else, and all sizes fit on the way; a kernel with the same samples does the same to a reel like
this one, wherever it is used with as much memory. -/
structure AllOrNothing (f : Filter α) (overlapAdd : Given Bool) (reel : ℕ) (r : Reel α)
    (s : Studio α) : Prop where
  refused : (∃ fault, (convolve reel f overlapAdd s).1.result = .error fault ∧
    fault.kind = .render) ↔ f.Refused overlapAdd.holds
  failed : ∀ fault, (convolve reel f overlapAdd s).1.result = .error fault →
    (convolve reel f overlapAdd s).2.reels = s.reels ∧
      (fault.kind = .render ∨ ∃ k cause, f = .kernel k ∧
        Room.forBins s.memory (k.samples.size + 1) = .error cause ∧ fault = .noArray cause)
  done : (convolve reel f overlapAdd s).1.result = .ok () →
    ∃ bins z, f.bins s.memory = .ok bins ∧
    Convolution.Fits bins (2 * (bins.size - 1)) (f.tail overlapAdd.holds) r.samples ∧
    (convolve reel f overlapAdd s).2.reels = s.reels.setIfInBounds reel { r with samples := z }
  alike : ∀ k k' made' s' reel', f = .kernel k → k'.samples = k.samples → Studio.Reached made' s' →
    k' ∈ made' → s'.memory = s.memory → s'.reels[reel']? = some r →
      (convolve reel' (.kernel k') overlapAdd s').1.result =
        (convolve reel f overlapAdd s).1.result ∧
      (convolve reel' (.kernel k') overlapAdd s').2.reels[reel']? =
        (convolve reel f overlapAdd s).2.reels[reel]?

variable {made : List (Kernel α)} {s : Studio α} {k : Kernel α}

omit [Scalar α] in
/-- Having no room is neither a refusal of a block nor one of a filter. -/
theorem kind_noArray (cause : SizeFault) : (Fault.noArray cause : Fault α).kind ≠ .configuration ∧
    (Fault.noArray cause : Fault α).kind ≠ .render := by
  cases cause <;> simp [Fault.kind]

theorem answers (hs : Studio.Reached made s) (hk : k ∈ made) (size : Option ℤ) :
    Answers k size s where
  refused := by
    -- of the answers only the first one has this kind
    obtain ⟨hunfit, h⟩ | ⟨block, hsize, heven, hlong, ⟨cause, -, h⟩ | ⟨-, h⟩⟩ :=
      k.answer_cases s.memory (size.getD k.blockSize)
    · exact iff_of_true ⟨_, spectrum_of_fault hs hk size h, rfl⟩ hunfit
    · refine iff_of_false ?_ (by omega)
      rintro ⟨fault, hfault, hkind⟩
      rw [spectrum_of_fault hs hk size h] at hfault
      cases hfault
      exact absurd hkind (kind_noArray cause).1
    · refine iff_of_false ?_ (by omega)
      rintro ⟨fault, hfault, -⟩
      obtain ⟨known, hknown, -⟩ := spectrum_of_answer hs hk size h
      rw [hknown] at hfault
      cases hfault
  given block hsize heven hlong hroom := by
    refine spectrum_of_answer hs hk size ?_
    rw [Kernel.answer_of_fits hsize heven hlong, hroom]
    rfl
  again known h s' size' hlater hsame := by rw [spectrum_again hsame h hlater]
  noRoom block cause hsize heven hlong hroom := by
    refine spectrum_of_fault hs hk size ?_
    rw [Kernel.answer_of_fits hsize heven hlong, hroom]
    rfl
  reels := reels_spectrum k size s

/-- **Of a kernel only the samples count**, in whatever studio with as much memory it is used. -/
theorem convolve_alike {made' : List (Kernel α)} {s' : Studio α} {k' : Kernel α}
    (hs : Studio.Reached made s) (hk : k ∈ made) (hs' : Studio.Reached made' s') (hk' : k' ∈ made')
    (hmemory : s'.memory = s.memory) (hsame : k'.samples = k.samples) {reel reel' : ℕ} {r : Reel α}
    (hr : s.reels[reel]? = some r) (hr' : s'.reels[reel']? = some r) (overlapAdd : Given Bool) :
    (convolve reel' (.kernel k') overlapAdd s').1.result =
        (convolve reel (.kernel k) overlapAdd s).1.result ∧
      (convolve reel' (.kernel k') overlapAdd s').2.reels[reel']? =
        (convolve reel (.kernel k) overlapAdd s).2.reels[reel]? := by
  have hf : IsMade made (.kernel k) := hk
  have hf' : IsMade made' (.kernel k') := hk'
  have hcongr : (Filter.kernel k').outcome s'.memory overlapAdd.holds r.samples =
      (Filter.kernel k).outcome s.memory overlapAdd.holds r.samples := by
    rw [hmemory]
    exact Filter.outcome_congr hsame overlapAdd.holds r.samples
  cases h : (Filter.kernel k).outcome s.memory overlapAdd.holds r.samples with
  | error fault =>
    obtain ⟨hresult, hreels⟩ := convolve_of_fault hs hf hr overlapAdd h
    obtain ⟨hresult', hreels'⟩ := convolve_of_fault hs' hf' hr' overlapAdd (hcongr.trans h)
    rw [hresult, hresult', hreels, hreels', hr, hr']
    exact ⟨rfl, rfl⟩
  | ok out =>
    obtain ⟨hresult, hreels⟩ := convolve_of_outcome hs hf hr overlapAdd h
    obtain ⟨hresult', hreels'⟩ := convolve_of_outcome hs' hf' hr' overlapAdd (hcongr.trans h)
    rw [hresult, hresult', hreels, hreels',
      Array.getElem?_setIfInBounds_self_of_lt (Array.getElem?_eq_some_iff.1 hr).1,
      Array.getElem?_setIfInBounds_self_of_lt (Array.getElem?_eq_some_iff.1 hr').1]
    exact ⟨rfl, rfl⟩

theorem allOrNothing (hs : Studio.Reached made s) {f : Filter α} (hf : IsMade made f) {reel : ℕ}
    {r : Reel α} (hr : s.reels[reel]? = some r) (overlapAdd : Given Bool) :
    AllOrNothing f overlapAdd reel r s := by
  have halike : ∀ k k' made' s' reel', f = .kernel k → k'.samples = k.samples →
      Studio.Reached made' s' → k' ∈ made' → s'.memory = s.memory → s'.reels[reel']? = some r →
        (convolve reel' (.kernel k') overlapAdd s').1.result =
          (convolve reel f overlapAdd s).1.result ∧
        (convolve reel' (.kernel k') overlapAdd s').2.reels[reel']? =
          (convolve reel f overlapAdd s).2.reels[reel]? := by
    rintro k k' made' s' reel' rfl hsame hs' hk' hmemory hr'
    exact convolve_alike hs hf hs' hk' hmemory hsame hr hr' overlapAdd
  -- whether the filter is refused, finds no room or applies, is settled before any reel is set
  obtain ⟨hrefused, fault, h, hkind⟩ | ⟨hnot, ⟨k, cause, rfl, hroom, h⟩ | ⟨bins, z, hbins, hfits, h⟩⟩ :=
    f.outcome_cases s.memory overlapAdd.holds r.samples
  · obtain ⟨hresult, hreels⟩ := convolve_of_fault hs hf hr overlapAdd h
    refine ⟨iff_of_true ⟨fault, hresult, hkind⟩ hrefused, ?_, ?_, halike⟩ <;> rw [hresult]
    · rintro _ ⟨⟩
      exact ⟨hreels, .inl hkind⟩
    · simp
  · obtain ⟨hresult, hreels⟩ := convolve_of_fault hs hf hr overlapAdd h
    refine ⟨iff_of_false ?_ hnot, ?_, ?_, halike⟩ <;> rw [hresult]
    · rintro ⟨_, ⟨⟩, hkind⟩
      exact (kind_noArray cause).2 hkind
    · rintro _ ⟨⟩
      exact ⟨hreels, .inr ⟨k, cause, rfl, hroom, rfl⟩⟩
    · simp
  · obtain ⟨hresult, hreels⟩ := convolve_of_outcome hs hf hr overlapAdd h
    refine ⟨iff_of_false ?_ hnot, ?_, ?_, halike⟩ <;> rw [hresult]
    · simp
    · simp
    · exact fun _ => ⟨bins, z, hbins, hfits, hreels⟩

/-- **Stored spectra make no difference, and filtering is all or nothing**, in every studio that can be
reached. -/
theorem spectra_transparent (hs : Studio.Reached made s) :
    (∀ k ∈ made, ∀ size, Answers k size s) ∧
      ∀ f, IsMade made f → ∀ reel r overlapAdd, s.reels[reel]? = some r →
        AllOrNothing f overlapAdd reel r s :=
  ⟨fun _ hk size => answers hs hk size, fun _ hf _ _ overlapAdd hr => allOrNothing hs hf hr overlapAdd⟩

/-- A kernel of three samples and a reel of two: an odd block is refused, and so is a bare spectrum
without coefficients; the kernel itself filters the reel. -/
theorem spectra_transparent_short_bare : ∃ (k : Kernel ℝ) (r : Reel ℝ) (s : Studio ℝ),
    k.samples = #[1, 1, 1] ∧ r.samples = #[1, 2] ∧ Studio.Reached [k] s ∧ s.reels = #[r] ∧
    (∃ fault, (spectrum k (some 5) s).1.result = .error fault ∧ fault.kind = .configuration) ∧
    (∃ fault, (convolve 0 (.bare #[]) (.value false) s).1.result = .error fault ∧
      fault.kind = .render) ∧
    ∃ z, (convolve 0 (.kernel k) (.value true) s).2.reels = #[{ r with samples := z }] := by
  let r : Reel ℝ := ⟨#[1, 2], 2, by simp [Scalar.le]⟩
  obtain ⟨k, s, hsamples, hs, hreels, hmemory⟩ :=
    Studio.exists_reached (x := (#[1, 1, 1] : Array ℝ)) (by simp) r 64
  have hr : s.reels[0]? = some r := by simp [hreels]
  obtain ⟨hspectrum, hconvolve⟩ := spectra_transparent hs
  refine ⟨k, r, s, hsamples, rfl, hs, hreels, ?_, ?_, ?_⟩
  · exact (hspectrum k List.mem_cons_self (some 5)).refused.2 (.inl (show (5 : ℤ) % 2 ≠ 0 by decide))
  · exact (hconvolve (.bare #[]) trivial 0 r (.value false) hr).refused.2
      ⟨#[], rfl, .inl (by decide)⟩
  · have hk := hconvolve (.kernel k) List.mem_cons_self 0 r (.value true) hr
    have hroom : Room.forBins s.memory (k.samples.size + 1) = .ok () := by
      rw [hsamples, hmemory]
      decide
    cases h : (convolve 0 (.kernel k) (.value true) s).1.result with
    | error fault =>
      rcases (hk.failed fault h).2 with hkind | ⟨k', cause, hk', hcause, -⟩
      · exact absurd (hk.refused.1 ⟨fault, h, hkind⟩) (Filter.not_refused_kernel k)
      · cases hk'
        rw [hroom] at hcause
        cases hcause
    | ok _ =>
      obtain ⟨bins, z, -, -, hz⟩ := hk.done h
      exact ⟨z, by rw [hz, hreels]; rfl⟩

/-- **Not every block that suits a kernel has a spectrum**: there is room for this one in no memory. -/
theorem spectrum_needs_room : ∃ (k : Kernel ℝ) (s : Studio ℝ), k.samples = #[1] ∧
    Studio.Reached [k] s ∧ (10 ^ 30 % 2 = 0 ∧ k.samples.size ≤ 10 ^ 30) ∧
    (spectrum k (some (10 ^ 30)) s).1.result = .error (.noArray .uncountableBins) := by
  obtain ⟨k, s, hsamples, hs, -⟩ := Studio.exists_reached (x := (#[1] : Array ℝ)) (by simp)
    ⟨#[], 1, by simp [Scalar.le]⟩ Room.standard
  have hlong : k.samples.size ≤ 10 ^ 30 := by rw [hsamples]; decide
  refine ⟨k, s, hsamples, hs, ⟨by decide, hlong⟩, ?_⟩
  exact (answers hs List.mem_cons_self (some (10 ^ 30))).noRoom (10 ^ 30) _ (by simp) (by decide) hlong
    (Room.forBins_of_limit_le (by decide))

end Session

end Polyphony
