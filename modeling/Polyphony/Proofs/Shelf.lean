import Polyphony.Proofs.Folder
import Polyphony.Proofs.Sound.Words
import Polyphony.Proofs.Studio

/-!
# Kernels on the shelf

A kernel that is loaded is put on the shelf under the location of its file, and is taken from there
until the shelf is cleared.

* `Session.loadKernel_cases`, `Session.putFile_cases`: what loading a kernel and putting a file can do.
* `Errand.Course`: errands that are run one after another, with what each of them came to.
* `Errand.Kept`: the invariant. **The shelf holds what has been loaded since it was cleared**, under
  identities that are all different, and the files are what was written last.
* `Errand.course_loads`: so a load that comes back to a location returns the same kernel, and any other
  load fails or returns a new one, which is made of the bytes that the file has then.
-/

namespace Polyphony

variable {α : Type} [Scalar α]

/-! ### Loading and writing -/

namespace Session

/-- Bytes that make no kernel use up an identity. -/
theorem kernelOfFile_of_error {path : String} {bytes : List UInt8} {s : Studio α} {fault : Fault α}
    (h : Kernel.ofPcm s.next bytes (some path) = .error fault) :
    (kernelOfFile path (.ok bytes) s).1.result = .error fault ∧
      (kernelOfFile path (.ok bytes) s).2 = { s with next := s.next + 1 } := by
  have hmade : (kernelOfPcm bytes (some path) s).1.result = .error fault := by
    rw [kernelOfPcm, fresh_bind, h]
    rfl
  dsimp only [kernelOfFile]
  rw [bind_error hmade]
  exact ⟨rfl, rfl⟩

theorem kernelOfFile_of_ok {path : String} {bytes : List UInt8} {s : Studio α} {k : Kernel α}
    (h : Kernel.ofPcm s.next bytes (some path) = .ok k) :
    (kernelOfFile path (.ok bytes) s).1.result = .ok k ∧
      (kernelOfFile path (.ok bytes) s).2 = { s with next := s.next + 1 } := by
  have hmade : (kernelOfPcm bytes (some path) s).1.result = .ok k := by
    rw [kernelOfPcm, fresh_bind, h]
    rfl
  dsimp only [kernelOfFile]
  rw [bind_ok hmade]
  exact ⟨rfl, rfl⟩

/-- **What loading a kernel can do**: refuse a path with the character zero, take the kernel from the
shelf, fail to read the file, fail to make a kernel of its bytes, or make one and shelve it. -/
theorem loadKernel_cases (p : FilePath) (s : Studio α) :
    (p.holdsZero = true ∧ loadKernel p s = (⟨[], .error (.unreadable p.shown .zeroInPath)⟩, s)) ∨
    p.holdsZero = false ∧
      ((∃ k, s.shelf.lookup (s.folder.resolve p) = some k ∧
        (loadKernel p s).1.result = .ok k ∧ (loadKernel p s).2 = s) ∨
      s.shelf.lookup (s.folder.resolve p) = none ∧
        ((∃ cause, s.folder.read ⟨"/", s.folder.resolve p⟩ = .error cause ∧
          (loadKernel p s).1.result =
            .error (.unreadable (Folder.fullPath (s.folder.resolve p)) cause) ∧
          (loadKernel p s).2 = s) ∨
        ∃ bytes, s.folder.read ⟨"/", s.folder.resolve p⟩ = .ok bytes ∧
          ((∃ fault, Kernel.ofPcm s.next bytes (some (Folder.fullPath (s.folder.resolve p))) =
              .error fault ∧ (loadKernel p s).1.result = .error fault ∧
            (loadKernel p s).2 = { s with next := s.next + 1 }) ∨
          ∃ k, Kernel.ofPcm s.next bytes (some (Folder.fullPath (s.folder.resolve p))) = .ok k ∧
            (loadKernel p s).1.result = .ok k ∧
            (loadKernel p s).2 = { s with
              next := s.next + 1
              shelf := (s.folder.resolve p, k) :: s.shelf }))) := by
  rw [loadKernel]
  cases p.holdsZero with
  | true => exact .inl ⟨rfl, rfl⟩
  | false =>
    refine .inr ⟨rfl, ?_⟩
    simp only [Bool.false_eq_true, if_false, get_bind]
    cases hl : s.shelf.lookup (s.folder.resolve p) with
    | some k => exact .inl ⟨k, rfl, rfl, rfl⟩
    | none =>
      refine .inr ⟨rfl, ?_⟩
      cases hread : s.folder.read ⟨"/", s.folder.resolve p⟩ with
      | error cause => exact .inl ⟨cause, rfl, rfl, rfl⟩
      | ok bytes =>
        refine .inr ⟨bytes, rfl, ?_⟩
        dsimp only
        cases hmade : Kernel.ofPcm (α := α) s.next bytes
            (some (Folder.fullPath (s.folder.resolve p))) with
        | error fault =>
          obtain ⟨hresult, hstate⟩ := kernelOfFile_of_error hmade
          rw [bind_error hresult, hstate]
          exact .inl ⟨fault, rfl, rfl, rfl⟩
        | ok k =>
          obtain ⟨hresult, hstate⟩ := kernelOfFile_of_ok hmade
          rw [bind_ok hresult, hstate]
          exact .inr ⟨k, rfl, rfl, rfl⟩

/-- A kernel that is on the shelf is given. -/
theorem loadKernel_of_lookup {p : FilePath} {s : Studio α} {k : Kernel α} (hzero : p.holdsZero = false)
    (hk : s.shelf.lookup (s.folder.resolve p) = some k) : (loadKernel p s).1.result = .ok k := by
  have hcases := loadKernel_cases p s
  rw [hzero, hk] at hcases
  obtain ⟨hfalse, -⟩ | ⟨-, ⟨k', hk', hresult, -⟩ | ⟨hnone, -⟩⟩ := hcases
  · cases hfalse
  · cases hk'
    exact hresult
  · cases hnone

/-- **A file that holds whole samples** is loaded. -/
theorem exists_loadKernel {p : FilePath} {s : Studio α} {bytes : List UInt8}
    (hzero : p.holdsZero = false) (hread : s.folder.read ⟨"/", s.folder.resolve p⟩ = .ok bytes)
    (heven : bytes.length % 2 = 0) (hne : bytes ≠ []) :
    ∃ k, (loadKernel p s).1.result = .ok k := by
  obtain ⟨k, hk, -⟩ := Kernel.exists_ofPcm (α := α) s.next heven hne
    (some (Folder.fullPath (s.folder.resolve p)))
  have hcases := loadKernel_cases p s
  rw [hzero, hread] at hcases
  obtain ⟨hfalse, -⟩ | ⟨-, ⟨k, -, hresult, -⟩ | ⟨-, ⟨cause, hcause, -⟩ |
    ⟨bytes', hbytes, ⟨fault, hmade, -⟩ | ⟨k, -, hresult, -⟩⟩⟩⟩ := hcases
  · cases hfalse
  · exact ⟨k, hresult⟩
  · cases hcause
  · cases hbytes
    rw [hk] at hmade
    cases hmade
  · exact ⟨k, hresult⟩

theorem changeFolder_of_ok (change : Folder → Except FileFault Folder) (fault : FileFault → Fault α)
    {s : Studio α} {folder : Folder} (h : change s.folder = .ok folder) :
    (changeFolder change fault s).1.result = .ok () ∧
      (changeFolder change fault s).2 = { s with folder := folder } := by
  rw [changeFolder, get_bind, h]
  exact ⟨rfl, rfl⟩

theorem changeFolder_of_error (change : Folder → Except FileFault Folder)
    (fault : FileFault → Fault α) {s : Studio α} {cause : FileFault}
    (h : change s.folder = .error cause) :
    (changeFolder change fault s).1.result = .error (fault cause) ∧
      (changeFolder change fault s).2 = s := by
  rw [changeFolder, get_bind, h]
  exact ⟨rfl, rfl⟩

/-- **What putting a file can do**: fail, after it has made some folders perhaps, or write the one file
that the path leads to. -/
theorem putFile_cases (p : FilePath) (bytes : List UInt8) (s : Studio α) :
    ∃ folder, (putFile p bytes s).2 = { s with folder := folder } ∧ folder.here = s.folder.here ∧
      ((∃ fault, (putFile p bytes s).1.result = .error fault ∧
        ∀ place, folder.file? place = s.folder.file? place) ∨
      (putFile p bytes s).1.result = .ok () ∧ ∀ place, folder.file? place =
        if place = s.folder.resolve p then some bytes else s.folder.file? place) := by
  rw [putFile]
  cases hfolders : s.folder.makeFolders p.parent with
  | error cause =>
    obtain ⟨hresult, hstate⟩ := changeFolder_of_error (·.makeFolders p.parent)
      (.cannotWrite (α := α) p.parent.shown) hfolders
    rw [bind_error hresult, hstate]
    exact ⟨s.folder, rfl, rfl, .inl ⟨_, rfl, fun _ => rfl⟩⟩
  | ok folder =>
    obtain ⟨hresult, hstate⟩ := changeFolder_of_ok (·.makeFolders p.parent)
      (.cannotWrite (α := α) p.parent.shown) hfolders
    obtain ⟨hhere, hfiles⟩ := Folder.sameFiles_makeFolders hfolders
    -- the folders that are made on the way change no file and no location
    have hfile : ∀ place, folder.file? place = s.folder.file? place := by
      intro place
      rw [Folder.file?, Folder.file?, hfiles]
    have hresolve : folder.resolve p = s.folder.resolve p := Folder.resolve_congr hhere p
    rw [bind_ok hresult, hstate, writeFile]
    cases hwrite : folder.write p bytes with
    | error cause =>
      obtain ⟨hresult', hstate'⟩ := changeFolder_of_error (s := { s with folder := folder })
        (·.write p bytes) (.cannotWrite p.shown) hwrite
      exact ⟨folder, hstate', hhere, .inl ⟨_, hresult', hfile⟩⟩
    | ok written =>
      obtain ⟨hresult', hstate'⟩ := changeFolder_of_ok (s := { s with folder := folder })
        (·.write p bytes) (.cannotWrite p.shown) hwrite
      obtain rfl := Folder.write_eq hwrite
      refine ⟨_, hstate', (Folder.here_put _ _ _).trans hhere, .inr ⟨hresult', fun place => ?_⟩⟩
      rw [Folder.file?_put, hresolve, hfile]

end Session

/-! ### Errands -/

/-- **What a studio can be sent for**: writing a file, loading a kernel, clearing the shelf. -/
inductive Errand where
  | write (p : FilePath) (bytes : List UInt8)
  | load (p : FilePath)
  | clear

/-- **What an errand came to.** -/
inductive Deed (α : Type) where
  | wrote (place : Location) (bytes : List UInt8)
  | loaded (place : Location) (kernel : Kernel α)
  | cleared
  | failed

namespace Errand

/-- Runs an errand. -/
def run (s : Studio α) : Errand → Deed α × Studio α
  | write p bytes =>
    let ended := Session.putFile p bytes s
    match ended.1.result with
    | .ok _ => (.wrote (s.folder.resolve p) bytes, ended.2)
    | .error _ => (.failed, ended.2)
  | load p =>
    let ended := Session.loadKernel p s
    match ended.1.result with
    | .ok k => (.loaded (s.folder.resolve p) k, ended.2)
    | .error _ => (.failed, ended.2)
  | clear => (.cleared, (Session.clearShelf s).2)

/-- **Errands, one after another**, from an empty studio on, and between them anything else that keeps
off the files and the shelf. The newest deed comes first. -/
inductive Course (folder : Folder) : List (Deed α) → Studio α → Prop
  | opened (memory : ℕ) : Course folder [] (Studio.empty folder memory)
  | next {history s} (e : Errand) : Course folder history s →
      Course folder ((e.run s).1 :: history) (e.run s).2
  | meanwhile {history s s'} : Course folder history s → s'.folder = s.folder → s'.shelf = s.shelf →
      s.next ≤ s'.next → Course folder history s'

/-- The deeds since the shelf was cleared. -/
def sinceClear (history : List (Deed α)) : List (Deed α) :=
  history.takeWhile fun
    | .cleared => false
    | _ => true

/-- The bytes that were written last at a place, or else those that were there from the beginning. -/
def contents (folder : Folder) : List (Deed α) → Location → Option (List UInt8)
  | [], place => folder.file? place
  | .wrote written bytes :: history, place =>
    if place = written then some bytes else contents folder history place
  | _ :: history, place => contents folder history place

/-- **What the errands before leave**: the working folder is the same, the files hold what was written
last, the shelf holds what has been loaded since it was cleared, and what has ever been loaded has
used up an identity, one for each kernel and each location. -/
structure Kept (folder : Folder) (history : List (Deed α)) (s : Studio α) : Prop where
  here : s.folder.here = folder.here
  files : ∀ place, s.folder.file? place = contents folder history place
  shelf : ∀ place k, s.shelf.lookup place = some k ↔ .loaded place k ∈ sinceClear history
  used : ∀ place k, .loaded place k ∈ history → k.id < s.next
  single : ∀ place k place' k', .loaded place k ∈ history → .loaded place' k' ∈ history →
    k.id = k'.id → place = place' ∧ k = k'

variable {folder : Folder} {history : List (Deed α)} {s : Studio α} {p : FilePath} {k : Kernel α}

theorem kept_empty (folder : Folder) (memory : ℕ) :
    Kept folder [] (Studio.empty folder memory : Studio α) where
  here := rfl
  files := fun _ => rfl
  shelf := by simp [Studio.empty, sinceClear]
  used := by simp
  single := by simp

omit [Scalar α] in
theorem mem_sinceClear_cons (deed : Deed α) (hdeed : deed ≠ .cleared) {other : Deed α} :
    other ∈ sinceClear (deed :: history) ↔ other = deed ∨ other ∈ sinceClear history := by
  cases deed <;> simp [sinceClear] at hdeed ⊢

omit [Scalar α] in
theorem mem_of_mem_sinceClear {deed : Deed α} (h : deed ∈ sinceClear history) : deed ∈ history :=
  (List.takeWhile_prefix _).subset h

theorem Kept.meanwhile (h : Kept folder history s) {s' : Studio α} (hfolder : s'.folder = s.folder)
    (hshelf : s'.shelf = s.shelf) (hnext : s.next ≤ s'.next) : Kept folder history s' where
  here := hfolder ▸ h.here
  files := hfolder ▸ h.files
  shelf := hshelf ▸ h.shelf
  used := fun place k hk => Nat.lt_of_lt_of_le (h.used place k hk) hnext
  single := h.single

/-- **A deed that shelves nothing** and clears nothing, where the files are what is left of it. -/
theorem Kept.next_quiet (h : Kept folder history s) (deed : Deed α) (hclear : deed ≠ .cleared)
    (hload : ∀ place k, deed ≠ .loaded place k) {s' : Studio α} (hhere : s'.folder.here = s.folder.here)
    (hfiles : ∀ place, s'.folder.file? place = contents folder (deed :: history) place)
    (hshelf : s'.shelf = s.shelf) (hnext : s.next ≤ s'.next) : Kept folder (deed :: history) s' := by
  have hmem : ∀ place k, Deed.loaded place k ∈ deed :: history ↔ Deed.loaded place k ∈ history :=
    fun place k => by simp [(hload place k).symm]
  refine ⟨hhere.trans h.here, hfiles, fun place k => ?_, fun place k hk => ?_, ?_⟩
  · rw [hshelf, h.shelf, mem_sinceClear_cons deed hclear, or_iff_right (hload place k).symm]
  · exact Nat.lt_of_lt_of_le (h.used place k ((hmem place k).1 hk)) hnext
  · intro place k place' k' hk hk'
    exact h.single place k place' k' ((hmem place k).1 hk) ((hmem place' k').1 hk')

/-- A failed errand leaves the files as they were. -/
theorem Kept.next_failed (h : Kept folder history s) {s' : Studio α}
    (hhere : s'.folder.here = s.folder.here)
    (hfiles : ∀ place, s'.folder.file? place = s.folder.file? place) (hshelf : s'.shelf = s.shelf)
    (hnext : s.next ≤ s'.next) : Kept folder (.failed :: history) s' :=
  h.next_quiet .failed (by simp) (by simp) hhere (fun place => (hfiles place).trans (h.files place))
    hshelf hnext

theorem Kept.next_write (h : Kept folder history s) (p : FilePath) (bytes : List UInt8) :
    Kept folder ((run s (write p bytes)).1 :: history) (run s (write p bytes)).2 := by
  obtain ⟨folder', hstate, hhere, ⟨fault, hresult, hfiles⟩ | ⟨hresult, hfiles⟩⟩ :=
    Session.putFile_cases p bytes s
  · simp only [run, hresult, hstate]
    exact h.next_failed hhere hfiles rfl (Nat.le_refl _)
  · simp only [run, hresult, hstate]
    refine h.next_quiet (.wrote _ bytes) (by simp) (by simp) hhere (fun place => ?_) rfl (Nat.le_refl _)
    rw [contents, hfiles, h.files]

/-- A kernel that was on the shelf has been loaded before. -/
theorem Kept.next_again (h : Kept folder history s) {place : Location}
    (hk : s.shelf.lookup place = some k) : Kept folder (.loaded place k :: history) s := by
  have hin := (h.shelf place k).1 hk
  -- so the history gains no deed that it does not have
  have hmem : ∀ place' k', Deed.loaded place' k' ∈ Deed.loaded place k :: history →
      Deed.loaded place' k' ∈ history := by
    intro place' k' hk'
    rcases List.mem_cons.1 hk' with he | hk'
    · exact he ▸ mem_of_mem_sinceClear hin
    · exact hk'
  refine ⟨h.here, h.files, fun place' k' => ?_, fun place' k' hk' => h.used _ _ (hmem _ _ hk'), ?_⟩
  · rw [h.shelf, mem_sinceClear_cons (.loaded place k) (by simp)]
    refine ⟨.inr, ?_⟩
    rintro (he | hin')
    · exact he ▸ hin
    · exact hin'
  · intro place₁ k₁ place₂ k₂ h₁ h₂
    exact h.single place₁ k₁ place₂ k₂ (hmem _ _ h₁) (hmem _ _ h₂)

/-- A kernel with the next identity is like none before. -/
theorem Kept.next_new (h : Kept folder history s) {place : Location}
    (hnone : s.shelf.lookup place = none) (hk : k.id = s.next) :
    Kept folder (.loaded place k :: history)
      { s with next := s.next + 1, shelf := (place, k) :: s.shelf } := by
  -- all identities of the history are below the next one
  have hne : ∀ place' k', Deed.loaded place' k' ∈ history → k'.id ≠ k.id := by
    intro place' k' hk'
    have := h.used place' k' hk'
    omega
  refine ⟨h.here, h.files, fun place' k' => ?_, fun place' k' hk' => ?_, ?_⟩
  · rw [mem_sinceClear_cons (.loaded place k) (by simp), ← h.shelf, Deed.loaded.injEq]
    show List.lookup place' ((place, k) :: s.shelf) = some k' ↔ _
    by_cases he : place' = place
    · subst he
      rw [List.lookup_cons_self, hnone]
      simp [eq_comm]
    · rw [List.lookup_cons, beq_false_of_ne he]
      simp [he]
  · show k'.id < s.next + 1
    rcases List.mem_cons.1 hk' with he | hk'
    · cases he
      omega
    · have := h.used place' k' hk'
      omega
  · intro place₁ k₁ place₂ k₂ h₁ h₂ hid
    rcases List.mem_cons.1 h₁ with e₁ | m₁ <;> rcases List.mem_cons.1 h₂ with e₂ | m₂
    · cases e₁
      cases e₂
      exact ⟨rfl, rfl⟩
    · cases e₁
      exact absurd hid.symm (hne place₂ k₂ m₂)
    · cases e₂
      exact absurd hid (hne place₁ k₁ m₁)
    · exact h.single place₁ k₁ place₂ k₂ m₁ m₂ hid

theorem Kept.next_load (h : Kept folder history s) (p : FilePath) :
    Kept folder ((run s (load p)).1 :: history) (run s (load p)).2 := by
  obtain ⟨-, hload⟩ | ⟨-, ⟨k, hl, hresult, hstate⟩ | ⟨hnone, ⟨cause, -, hresult, hstate⟩ |
    ⟨bytes, -, ⟨fault, -, hresult, hstate⟩ | ⟨k, hmade, hresult, hstate⟩⟩⟩⟩ :=
      Session.loadKernel_cases p s
  · simp only [run, hload]
    exact h.next_failed rfl (fun _ => rfl) rfl (Nat.le_refl _)
  · -- on the shelf: a deed that is done once more
    simp only [run, hresult, hstate]
    exact h.next_again hl
  · simp only [run, hresult, hstate]
    exact h.next_failed rfl (fun _ => rfl) rfl (Nat.le_refl _)
  · simp only [run, hresult, hstate]
    -- the identity of the kernel that could not be made is lost
    exact h.next_failed rfl (fun _ => rfl) rfl (Nat.le_succ _)
  · simp only [run, hresult, hstate]
    exact h.next_new hnone (Session.id_ofPcm hmade)

theorem Kept.next_clear (h : Kept folder history s) :
    Kept folder ((run s clear).1 :: history) (run s clear).2 where
  here := h.here
  files := h.files
  shelf := fun place k => by
    show List.lookup place [] = some k ↔ _
    simp [sinceClear, run]
  used := fun place k hk => h.used place k (by simpa [run] using hk)
  single := by
    intro place k place' k' hk hk'
    exact h.single place k place' k' (by simpa [run] using hk) (by simpa [run] using hk')

/-- **The invariant holds after any errands.** -/
theorem Course.kept (h : Course folder history s) : Kept folder history s := by
  induction h with
  | opened memory => exact kept_empty folder memory
  | next e _ ih =>
    cases e with
    | write p bytes => exact ih.next_write p bytes
    | load p => exact ih.next_load p
    | clear => exact ih.next_clear
  | meanwhile _ hfolder hshelf hnext ih => exact ih.meanwhile hfolder hshelf hnext

/-- **What a load comes to** after some errands. A path with the character zero leads nowhere. A location
that has been loaded since the shelf was cleared gives the same kernel once more. Any other fails, and
then the shelf stays as it is, or it gives a kernel that is new and is made of the bytes that the file
has by then, under an identity that nothing has had before; it fails only for want of a file that can be
read and holds whole samples. -/
structure Loads (folder : Folder) (history : List (Deed α)) (s : Studio α) (p : FilePath) : Prop where
  zero : p.holdsZero = true →
    Session.loadKernel p s = (⟨[], .error (.unreadable p.shown .zeroInPath)⟩, s)
  again : p.holdsZero = false → ∀ k, .loaded (folder.resolve p) k ∈ sinceClear history →
    (Session.loadKernel p s).1.result = .ok k
  anew : p.holdsZero = false → (∀ k, .loaded (folder.resolve p) k ∉ sinceClear history) →
    (∃ fault, (Session.loadKernel p s).1.result = .error fault ∧ fault.kind = .resource ∧
      (Session.loadKernel p s).2.shelf = s.shelf) ∨
    ∃ k bytes, (Session.loadKernel p s).1.result = .ok k ∧
      contents folder history (folder.resolve p) = some bytes ∧
      Kernel.ofPcm k.id bytes (some (Folder.fullPath (folder.resolve p))) = .ok k ∧
      s.next ≤ k.id ∧ ∀ place k', .loaded place k' ∈ history → k'.id ≠ k.id
  whole : p.holdsZero = false → ∀ bytes, s.folder.read ⟨"/", folder.resolve p⟩ = .ok bytes →
    bytes.length % 2 = 0 → bytes ≠ [] → ∃ k, (Session.loadKernel p s).1.result = .ok k

/-- **A location that nothing has been loaded from** since the shelf was cleared. -/
theorem Kept.load_anew (h : Kept folder history s) (hhere : Folder.IsPlain folder.here)
    (hzero : p.holdsZero = false) (hnone : s.shelf.lookup (folder.resolve p) = none) :
    (∃ fault, (Session.loadKernel p s).1.result = .error fault ∧ fault.kind = .resource ∧
      (Session.loadKernel p s).2.shelf = s.shelf) ∨
    ∃ k bytes, (Session.loadKernel p s).1.result = .ok k ∧
      contents folder history (folder.resolve p) = some bytes ∧
      Kernel.ofPcm k.id bytes (some (Folder.fullPath (folder.resolve p))) = .ok k ∧
      s.next ≤ k.id ∧ ∀ place k', .loaded place k' ∈ history → k'.id ≠ k.id := by
  have hplain : Folder.IsPlain (folder.resolve p) := Folder.isPlain_resolve hhere hzero
  have hcases := Session.loadKernel_cases p s
  rw [Folder.resolve_congr h.here p, hzero, hnone] at hcases
  obtain ⟨hfalse, -⟩ | ⟨-, ⟨k, hsome, -⟩ | ⟨-, ⟨cause, hread, hresult, hstate⟩ |
    ⟨bytes, hread, ⟨fault, hmade, hresult, hstate⟩ | ⟨k, hmade, hresult, hstate⟩⟩⟩⟩ := hcases
  · cases hfalse
  · cases hsome
  · refine .inl ⟨_, hresult, ?_, by rw [hstate]⟩
    -- of the causes only the character zero is no fault of a file
    cases cause with
    | zeroInPath => exact absurd hread (Folder.read_ne_zeroInPath hplain)
    | _ => rfl
  · exact .inl ⟨fault, hresult, Kernel.kind_of_ofPcm hmade, by rw [hstate]⟩
  · have hid := Session.id_ofPcm hmade
    refine .inr ⟨k, bytes, hresult, ?_, hid.symm ▸ hmade, Nat.le_of_eq hid.symm, fun place k' hk' => ?_⟩
    · -- the bytes that were read are those that were written last
      rw [← h.files]
      exact Folder.file?_of_read hplain hread
    · have hused := h.used place k' hk'
      omega

/-- **The promise is kept.** -/
theorem Kept.loads (h : Kept folder history s) (hhere : Folder.IsPlain folder.here) (p : FilePath) :
    Loads folder history s p where
  zero hzero := by
    obtain ⟨-, hload⟩ | ⟨hzero', -⟩ := Session.loadKernel_cases p s
    · exact hload
    · rw [hzero'] at hzero
      cases hzero
  again hzero k hk := by
    refine Session.loadKernel_of_lookup hzero ?_
    rw [Folder.resolve_congr h.here p]
    exact (h.shelf _ _).2 hk
  anew hzero hnew := by
    refine h.load_anew hhere hzero ?_
    cases hl : s.shelf.lookup (folder.resolve p) with
    | none => rfl
    | some k => exact absurd ((h.shelf _ _).1 hl) (hnew k)
  whole hzero bytes hread heven hne := by
    refine Session.exists_loadKernel hzero ?_ heven hne
    rw [Folder.resolve_congr h.here p]
    exact hread

/-- **Kernels are loaded once**, whatever is written, loaded and cleared in between: what a load comes to
is as said, and loads of different locations never give the same kernel. -/
theorem course_loads (h : Course folder history s) (hhere : Folder.IsPlain folder.here) :
    (∀ p, Loads folder history s p) ∧
      ∀ place k place' k', .loaded place k ∈ history → .loaded place' k' ∈ history →
        place ≠ place' → k.id ≠ k'.id :=
  ⟨h.kept.loads hhere, fun place k place' k' hk hk' hne hid =>
    hne (h.kept.single place k place' k' hk hk' hid).1⟩

/-- A file that is written over after it was loaded, and is then asked for by another spelling of its
path. -/
theorem course_loads_written_over : ∃ (folder : Folder) (deed : Deed Float) (k : Kernel Float)
    (s : Studio Float), Course folder [deed, .loaded ["k"] k] s ∧ deed ≠ .cleared ∧
      (Session.loadKernel ⟨"", ["x", "..", "k"]⟩ s).1.result = .ok k := by
  -- three bytes are no whole samples, and a step up takes the folder back off
  let folder : Folder := ⟨[], [], [(["k"], [0, 1])]⟩
  let s₁ : Studio Float := (run (Studio.empty folder) (load ⟨"", ["k"]⟩)).2
  have hhere : Folder.IsPlain folder.here := by simp [Folder.IsPlain, folder]
  obtain ⟨k, hk⟩ := ((course_loads (Course.opened (α := Float) Room.standard) hhere).1 ⟨"", ["k"]⟩).whole
    (by decide) [0, 1] (by rfl) (by decide) (by decide)
  have hload : (run (Studio.empty folder) (load ⟨"", ["k"]⟩)).1 = .loaded ["k"] k := by
    simp only [run, hk]
    rfl
  have hcourse : Course folder [(run s₁ (write ⟨"", ["k"]⟩ [7, 7, 7])).1, .loaded ["k"] k]
      (run s₁ (write ⟨"", ["k"]⟩ [7, 7, 7])).2 := hload ▸ .next _ (.next _ (.opened _))
  have hwrite : (run s₁ (write ⟨"", ["k"]⟩ [7, 7, 7])).1 ≠ .cleared := by
    simp only [run]
    split <;> simp
  refine ⟨folder, _, k, _, hcourse, hwrite, ?_⟩
  refine ((course_loads hcourse hhere).1 ⟨"", ["x", "..", "k"]⟩).again (by decide) k ?_
  exact (mem_sinceClear_cons _ hwrite).2 (.inr List.mem_cons_self)

/-- **A path with the character zero is no fault of a file**, though no file has such a path. -/
theorem loadKernel_zero_not_resource : ∃ fault, (Session.loadKernel
    ⟨"", [String.ofList ['a', Char.ofNat 0, 'b']]⟩ (Studio.empty (.empty []) : Studio Float)).1.result =
      .error fault ∧ fault.kind = .value ∧ fault.kind ≠ .resource := by
  obtain ⟨-, h⟩ | ⟨hzero, -⟩ := Session.loadKernel_cases
    ⟨"", [String.ofList ['a', Char.ofNat 0, 'b']]⟩ (Studio.empty (.empty []) : Studio Float)
  · exact ⟨.unreadable _ .zeroInPath, by rw [h], rfl, by decide⟩
  · exact absurd hzero (by decide)

end Errand

end Polyphony
