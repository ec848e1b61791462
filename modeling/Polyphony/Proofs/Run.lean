import Polyphony.Run

/-!
# Steps of a run

The result of a run does not depend on its trace (`Run.result_bind`), and what is in the trace of a
sequence is in that of one of its parts (`Run.mem_trace_bind`). What a sequence fails for are the causes
of its parts (`Run.FailsBy.bind`).
-/

namespace Polyphony

/-- The request, if an instrument was asked. -/
def Happening.asked? {α : Type} : Happening α → Option (Request α)
  | .asked request => some request
  | .entered _ => none

namespace Run

variable {α β γ : Type}

/-- **The result of a sequence** is that of the results. -/
theorem result_bind (m : Run α β) (f : β → Run α γ) :
    (m >>= f).result = m.result >>= fun b => (f b).result := by
  cases h : m.result with
  | error e => rw [bind_error h]; rfl
  | ok b => rw [bind_ok h]; rfl

/-- A run that ends well ends with something. -/
theorem exists_of_isOk {m : Run α β} (h : m.result.isOk = true) : ∃ b, m.result = .ok b := by
  cases hm : m.result with
  | ok b => exact ⟨b, rfl⟩
  | error fault =>
    rw [hm] at h
    cases h

/-- A sequence that ends well has parts that end well. -/
theorem exists_of_bind_ok {m : Run α β} {f : β → Run α γ} {c : γ}
    (h : (m >>= f).result = .ok c) : ∃ b, m.result = .ok b ∧ (f b).result = .ok c := by
  cases hm : m.result with
  | error e =>
    rw [bind_error hm] at h
    cases h
  | ok b =>
    rw [bind_ok hm] at h
    exact ⟨b, rfl, h⟩

theorem mem_trace_bind {m : Run α β} {f : β → Run α γ} {happening : Happening α}
    (h : happening ∈ (m >>= f).trace) :
    happening ∈ m.trace ∨ ∃ b, m.result = .ok b ∧ happening ∈ (f b).trace := by
  cases hm : m.result with
  | error e =>
    rw [bind_error hm] at h
    exact .inl h
  | ok b =>
    rw [bind_ok hm] at h
    rcases List.mem_append.1 h with h | h
    · exact .inl h
    · exact .inr ⟨b, rfl, h⟩

/-- **A run that fails for certain causes**: it ends with one of them, or else well, and then there
is none of them. -/
def FailsBy (m : Run α β) (causes : Fault α → Prop) : Prop :=
  (∃ b, m.result = .ok b ∧ ∀ fault, ¬ causes fault) ∨ ∃ fault, m.result = .error fault ∧ causes fault

namespace FailsBy

variable {m : Run α β} {f : β → Run α γ} {causes later : Fault α → Prop}

protected theorem pure (b : β) : (pure b : Run α β).FailsBy fun _ => False :=
  .inl ⟨b, rfl, fun _ h => h⟩

/-- A sequence fails for the causes of its parts. -/
theorem bind (h : m.FailsBy causes) (hf : ∀ b, (f b).FailsBy later) :
    (m >>= f).FailsBy fun fault => causes fault ∨ later fault := by
  rcases h with ⟨b, hb, hnone⟩ | ⟨fault, hfault, hcause⟩
  · rw [bind_ok hb]
    rcases hf b with ⟨c, hc, hnone'⟩ | ⟨fault, hfault, hcause⟩
    · exact .inl ⟨c, hc, fun fault h => h.elim (hnone fault) (hnone' fault)⟩
    · exact .inr ⟨fault, hfault, .inr hcause⟩
  · rw [bind_error hfault]
    exact .inr ⟨fault, rfl, .inl hcause⟩

theorem congr (h : m.FailsBy causes) (hsame : ∀ fault, later fault ↔ causes fault) :
    m.FailsBy later := by
  rwa [show later = causes from funext fun fault => propext (hsame fault)]

theorem exists_ok_iff (h : m.FailsBy causes) :
    (∃ b, m.result = .ok b) ↔ ∀ fault, ¬ causes fault := by
  rcases h with ⟨b, hb, hnone⟩ | ⟨fault, hfault, hcause⟩
  · exact ⟨fun _ => hnone, fun _ => ⟨b, hb⟩⟩
  · rw [hfault]
    refine ⟨?_, fun hnone => absurd hcause (hnone fault)⟩
    rintro ⟨b, hb⟩
    cases hb

theorem of_error (h : m.FailsBy causes) {fault : Fault α} (hfault : m.result = .error fault) :
    causes fault := by
  rcases h with ⟨b, hb, -⟩ | ⟨fault', hfault', hcause⟩
  · rw [hfault] at hb
    cases hb
  · rw [hfault] at hfault'
    cases hfault'
    exact hcause

end FailsBy

theorem tryCatch_ok {m : Run α β} {b : β} (h : m.result = .ok b) (handle : Fault α → Run α β) :
    tryCatch m handle = m := by
  obtain ⟨trace, result⟩ := m
  cases h
  rfl

theorem tryCatch_error {m : Run α β} {e : Fault α} (h : m.result = .error e)
    (handle : Fault α → Run α β) :
    tryCatch m handle = ⟨m.trace ++ (handle e).trace, (handle e).result⟩ := by
  obtain ⟨trace, result⟩ := m
  cases h
  rfl

theorem ofExcept_ok (b : β) : (ofExcept (.ok b) : Run α β) = pure b := rfl

theorem result_ofExcept (r : Except (Fault α) β) : (ofExcept r).result = r := rfl

theorem result_enter (entry : Entry α) : (enter entry).result = .ok () := rfl

theorem requests_eq (m : Run α β) : m.requests = m.trace.filterMap Happening.asked? := by
  have hsame : (fun | .asked r => some r | .entered _ => none :
      Happening α → Option (Request α)) = Happening.asked? := by
    funext happening
    cases happening <;> rfl
  rw [← hsame]
  rfl

end Run

end Polyphony
