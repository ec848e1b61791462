import Polyphony.Journal

/-!
# Runs

A run is what a computation leaves behind: the trace of what happened on the way, in order, and
the value or the fault it ended with. The trace outlives a fault.

* `Run`: the monad of runs; lawful.
* `ErrorPolicy`, `excuse`: a fault of a score is thrown in strict mode, and in lenient mode it is
  entered in the journal and skipped.
-/

namespace Polyphony

/-- One call of an instrument: a frequency, a length in seconds, and a volume. -/
structure Request (α : Type) where
  note : α
  length : α
  volume : α

/-- What can happen in a run. -/
inductive Happening (α : Type) where
  | entered (entry : Entry α)
  /-- The instrument was asked for a note. -/
  | asked (request : Request α)

/-- **A run**: its trace and its end. -/
structure Run (α β : Type) where
  trace : List (Happening α)
  result : Except (Fault α) β

namespace Run

variable {α β γ : Type}

protected def pure (b : β) : Run α β := ⟨[], .ok b⟩

protected def bind (m : Run α β) (f : β → Run α γ) : Run α γ :=
  match m.result with
  | .ok b => ⟨m.trace ++ (f b).trace, (f b).result⟩
  | .error e => ⟨m.trace, .error e⟩

instance : Monad (Run α) where
  pure := Run.pure
  bind := Run.bind

instance : MonadExceptOf (Fault α) (Run α) where
  throw e := ⟨[], .error e⟩
  tryCatch m handle :=
    match m.result with
    | .ok _ => m
    | .error e => ⟨m.trace ++ (handle e).trace, (handle e).result⟩

theorem pure_def (b : β) : (pure b : Run α β) = ⟨[], .ok b⟩ := rfl

theorem bind_ok {m : Run α β} {b : β} (h : m.result = .ok b) (f : β → Run α γ) :
    m >>= f = ⟨m.trace ++ (f b).trace, (f b).result⟩ := by
  show Run.bind m f = _
  simp [Run.bind, h]

theorem bind_error {m : Run α β} {e : Fault α} (h : m.result = .error e) (f : β → Run α γ) :
    m >>= f = ⟨m.trace, .error e⟩ := by
  show Run.bind m f = _
  simp [Run.bind, h]

private theorem bind_pure_map (m : Run α β) : id <$> m = m := by
  obtain ⟨t, r⟩ := m
  cases r <;> simp [Functor.map, Run.bind, Run.pure]

private theorem bind_bind (m : Run α β) (f : β → Run α γ) {δ : Type} (g : γ → Run α δ) :
    m >>= f >>= g = m >>= fun b => f b >>= g := by
  obtain ⟨t, r⟩ := m
  cases r with
  | error e => rfl
  | ok b =>
    simp only [bind, Run.bind]
    cases h : (f b).result <;> simp [List.append_assoc]

instance : LawfulMonad (Run α) :=
  LawfulMonad.mk' (Run α) bind_pure_map (fun _ _ => by simp [bind, Run.bind, pure, Run.pure])
    fun m f g => bind_bind m f g

/-- The run of a computation that leaves no trace. -/
def ofExcept (r : Except (Fault α) β) : Run α β := ⟨[], r⟩

/-- Adds an entry to the trace. -/
def enter (entry : Entry α) : Run α Unit := ⟨[.entered entry], .ok ()⟩

/-- Adds a call of the instrument to the trace. -/
def ask (request : Request α) : Run α Unit := ⟨[.asked request], .ok ()⟩

/-- The entries of a trace. -/
def entries (m : Run α β) : List (Entry α) :=
  m.trace.filterMap fun | .entered e => some e | .asked _ => none

/-- The run with some of its entries only. -/
def keepEntries (keep : Entry α → Bool) (m : Run α β) : Run α β :=
  { m with trace := m.trace.filter fun | .entered e => keep e | .asked _ => true }

/-- The calls of the instrument in a trace. -/
def requests (m : Run α β) : List (Request α) :=
  m.trace.filterMap fun | .asked r => some r | .entered _ => none

end Run

/-- Whether a fault in a score ends the work or is skipped with a warning. -/
inductive ErrorMode where
  | strict
  | lenient
  deriving DecidableEq

/-- The mode of a name. -/
def ErrorMode.ofName? : String → Option ErrorMode
  | "strict" => some .strict
  | "lenient" => some .lenient
  | _ => none

def ErrorMode.name : ErrorMode → String
  | strict => "strict"
  | lenient => "lenient"

/-- **The mode of a call**: the standing mode, unless the call asks for one of its own. -/
structure ErrorPolicy where
  standing : ErrorMode
  asked : Option ErrorMode

def ErrorPolicy.mode (p : ErrorPolicy) : ErrorMode := p.asked.getD p.standing

/-- Throws the fault in strict mode; in lenient mode makes the entry and goes on. -/
def excuse {α : Type} (policy : ErrorPolicy) (fault : Fault α) (entry : Entry α) : Run α Unit :=
  match policy.mode with
  | .strict => throw fault
  | .lenient => .enter entry

end Polyphony
