import Mathlib.Data.List.Basic
import Polyphony.Folder

/-!
# Files by location

A file is written and read by a path, which is taken step by step, and known by the location that the
path leads to.

* `Folder.IsPlain`: locations as they are resolved, without steps up.
* `Folder.locate_eq`: a path that can be taken leads where it resolves to.
* `Folder.file?_of_read`: what is read at a plain location is the file there.
* `Folder.write_eq`, `Folder.file?_put`: writing changes the one file that the path leads to.
-/

namespace Polyphony

namespace Folder

variable {f f' : Folder} {p : FilePath} {place : Location} {bytes : List UInt8}

/-- **A plain location**: no step goes up, and none holds the character zero. -/
def IsPlain (place : Location) : Prop :=
  ∀ step ∈ place, step ≠ ".." ∧ step.toList.contains (Char.ofNat 0) = false

/-! ### Where paths lead -/

theorem climb_cons (place : List String) (step : String) (steps : List String) :
    climb place (step :: steps) = climb (if step = ".." then place.tail else step :: place) steps :=
  rfl

/-- What a path resolves to hangs on the working folder alone. -/
theorem resolve_congr (h : f'.here = f.here) (p : FilePath) : f'.resolve p = f.resolve p := by
  rw [resolve, resolve, origin, origin, h]

/-- What steps lead to from a plain place is plain. -/
theorem isPlain_climb (steps : List String)
    (hsteps : ∀ step ∈ steps, step.toList.contains (Char.ofNat 0) = false) (hplace : IsPlain place) :
    IsPlain (climb place steps) := by
  induction steps generalizing place with
  | nil => exact hplace
  | cons step steps ih =>
    obtain ⟨hstep, hsteps⟩ := List.forall_mem_cons.1 hsteps
    rw [climb_cons]
    refine ih hsteps ?_
    split
    · exact fun step' h => hplace step' (List.mem_of_mem_tail h)
    · rename_i hup
      exact List.forall_mem_cons.2 ⟨⟨hup, hstep⟩, hplace⟩

theorem isPlain_reverse : IsPlain place.reverse ↔ IsPlain place := by simp [IsPlain]

/-- **Paths resolve to plain locations.** -/
theorem isPlain_resolve (hhere : IsPlain f.here) (hp : p.holdsZero = false) :
    IsPlain (f.resolve p) := by
  have hsteps : ∀ step ∈ p.steps, step.toList.contains (Char.ofNat 0) = false := by
    simpa [FilePath.holdsZero] using hp
  refine isPlain_reverse.2 (isPlain_climb _ hsteps (isPlain_reverse.2 ?_))
  rw [origin]
  split
  · exact hhere
  · simp [IsPlain]

/-- Steps that do not go up are all kept. -/
theorem climb_eq_append (steps place : List String) (hsteps : ∀ step ∈ steps, step ≠ "..") :
    climb place steps = steps.reverse ++ place := by
  induction steps generalizing place with
  | nil => rfl
  | cons step steps ih =>
    obtain ⟨hstep, hsteps⟩ := List.forall_mem_cons.1 hsteps
    rw [climb_cons, if_neg hstep, ih _ hsteps]
    simp

/-- A plain location, taken as a path from the root, resolves to itself. -/
theorem resolve_of_isPlain (f : Folder) (h : IsPlain place) : f.resolve ⟨"/", place⟩ = place := by
  show (climb [] place).reverse = place
  rw [climb_eq_append _ _ fun step hstep => (h step hstep).1]
  simp

/-- **Steps that can be taken** lead where they are counted to. -/
theorem descend_eq {start steps place : List String} (h : f.descend start steps = .ok place) :
    place = climb start steps := by
  induction steps generalizing start with
  | nil =>
    cases h
    rfl
  | cons step steps ih =>
    rw [descend] at h
    split at h
    · split at h
      · cases h
      · rw [climb_cons]
        exact ih h
    · split at h <;> cases h

theorem descend_ne_zeroInPath (f : Folder) (start steps : List String) :
    f.descend start steps ≠ .error .zeroInPath := by
  induction steps generalizing start with
  | nil => simp [descend]
  | cons step steps ih =>
    rw [descend]
    split
    · split
      · simp
      · exact ih _
    · split <;> simp

/-- What a path without the character zero names. -/
theorem locate_of_not_holdsZero (f : Folder) (hp : p.holdsZero = false) : f.locate p =
    if p.isLong then .error .nameTooLong
    else (f.descend (f.origin p).reverse p.steps).map List.reverse := by
  rw [locate, hp]
  cases p.isLong with
  | true => rfl
  | false =>
    cases h : f.descend (f.origin p).reverse p.steps <;>
      simp [Except.map, bind, Except.bind, pure, Except.pure]

/-- **A path that can be taken** leads where it resolves to. -/
theorem locate_eq (h : f.locate p = .ok place) : place = f.resolve p := by
  cases hp : p.holdsZero with
  | true =>
    rw [locate, hp] at h
    cases h
  | false =>
    rw [locate_of_not_holdsZero f hp] at h
    split at h
    · cases h
    · cases hd : f.descend (f.origin p).reverse p.steps with
      | error cause =>
        rw [hd] at h
        cases h
      | ok taken =>
        rw [hd] at h
        cases h
        rw [resolve, descend_eq hd]

theorem locate_ne_zeroInPath (f : Folder) (hp : p.holdsZero = false) :
    f.locate p ≠ .error .zeroInPath := by
  rw [locate_of_not_holdsZero f hp]
  split
  · simp
  · cases hd : f.descend (f.origin p).reverse p.steps with
    | error cause =>
      rintro ⟨⟩
      exact descend_ne_zeroInPath f _ _ hd
    | ok taken => simp [Except.map]

/-! ### Reading -/

theorem holdsZero_of_isPlain (h : IsPlain place) : FilePath.holdsZero ⟨"/", place⟩ = false := by
  simpa [FilePath.holdsZero] using fun step hstep => (h step hstep).2

/-- **What is read at a plain location** is the file there. -/
theorem file?_of_read (h : IsPlain place) (hread : f.read ⟨"/", place⟩ = .ok bytes) :
    f.file? place = some bytes := by
  rw [read] at hread
  cases hl : f.locate ⟨"/", place⟩ with
  | error cause =>
    rw [hl] at hread
    cases hread
  | ok taken =>
    obtain rfl : taken = place := (locate_eq hl).trans (resolve_of_isPlain f h)
    rw [hl] at hread
    change f.readAt taken = .ok bytes at hread
    rw [readAt] at hread
    split at hread
    · cases hread
    · split at hread
      · cases hread
        assumption
      · cases hread

theorem read_ne_zeroInPath (h : IsPlain place) : f.read ⟨"/", place⟩ ≠ .error .zeroInPath := by
  rw [read]
  cases hl : f.locate ⟨"/", place⟩ with
  | error cause =>
    rintro ⟨⟩
    exact locate_ne_zeroInPath f (holdsZero_of_isPlain h) hl
  | ok taken =>
    show f.readAt taken ≠ _
    rw [readAt]
    split
    · simp
    · split <;> simp

/-! ### Writing -/

/-- Replacing the bytes at a place, wherever it occurs in a list of files. -/
theorem lookup_map_replace (files : List (Location × List UInt8)) (place : Location)
    (bytes : List UInt8) (other : Location) :
    (files.map fun (file, old) => (file, if file = place then bytes else old)).lookup other =
      (files.lookup other).map fun old => if other = place then bytes else old := by
  induction files with
  | nil => rfl
  | cons entry files ih =>
    obtain ⟨file, old⟩ := entry
    rw [List.map_cons, List.lookup_cons, List.lookup_cons, ih]
    by_cases h : other = file
    · subst h
      simp
    · simp [beq_false_of_ne h]

/-- **A file that is put** at a place is there, and all others stay. -/
theorem file?_put (f : Folder) (place : Location) (bytes : List UInt8) (other : Location) :
    (f.put place bytes).file? other = if other = place then some bytes else f.file? other := by
  by_cases hother : other = place
  · -- a file that is there is replaced where it stands, and a new one comes last
    subst hother
    rw [put, if_pos rfl]
    cases hthere : f.file? other with
    | some old =>
      show (List.map _ f.files).lookup other = _
      rw [lookup_map_replace, show f.files.lookup other = some old from hthere]
      simp
    | none =>
      show (f.files ++ [(other, bytes)]).lookup other = _
      rw [List.lookup_append, show f.files.lookup other = none from hthere]
      simp
  · rw [put, if_neg hother]
    split
    · show (List.map _ f.files).lookup other = _
      rw [lookup_map_replace]
      simp [hother, file?]
    · show (f.files ++ [(place, bytes)]).lookup other = _
      rw [List.lookup_append]
      simp [file?, List.lookup_cons, beq_false_of_ne hother]

theorem here_put (f : Folder) (place : Location) (bytes : List UInt8) :
    (f.put place bytes).here = f.here := by
  rw [put]
  split <;> rfl

/-- **Writing** changes the one file that the path leads to. -/
theorem write_eq (h : f.write p bytes = .ok f') : f' = f.put (f.resolve p) bytes := by
  rw [write] at h
  cases hl : f.locate p with
  | error cause =>
    rw [hl] at h
    cases h
  | ok place =>
    obtain rfl := locate_eq hl
    simp only [hl, bind, Except.bind] at h
    split at h
    · cases h
    · cases h
      rfl

/-- The same files, seen from the same folder. -/
structure SameFiles (f f' : Folder) : Prop where
  here : f'.here = f.here
  files : f'.files = f.files

theorem sameFiles_makeSteps {start steps : List String} (h : f.makeSteps start steps = .ok f') :
    f.SameFiles f' := by
  induction steps generalizing f start with
  | nil =>
    cases h
    exact ⟨rfl, rfl⟩
  | cons step steps ih =>
    rw [makeSteps] at h
    -- where the step leads makes no difference
    generalize (if step = ".." then start.tail else step :: start) = next at h
    split at h
    · cases h
    · split at h
      · exact ih h
      · split at h
        · exact ⟨(ih h).here, (ih h).files⟩
        · split at h <;> cases h

/-- **Making folders** leaves the files alone. -/
theorem sameFiles_makeFolders (h : f.makeFolders p = .ok f') : f.SameFiles f' := by
  rw [makeFolders] at h
  split at h
  · cases h
  · split at h
    · cases h
    · exact sameFiles_makeSteps h

end Folder

end Polyphony
