import Mathlib.Data.Nat.Notation
import Polyphony.Signal.Wiring

/-!
# What a wiring yields

* `Wiring.Ensures`: whatever the wiring yields has a property.
* `Wiring.Succeeds`: the wiring yields something, from every next free identity.
* `Wiring.Yields`: both at once.
* `Wiring.Ends`: how the wiring ends, with something or with a fault.

They have one rule for every step of a wiring, and they pass through `>>=`; all but the third pass through
the wiring of several inputs.
-/

namespace Polyphony.Wiring

variable {α β γ : Type} [Scalar α] {reels : Reels α}

theorem bind_apply (m : Wiring α β) (f : β → Wiring α γ) (reels : Reels α) (next : ℕ) :
    (m >>= f) reels next = m reels next >>= fun p => f p.1 reels p.2 := rfl

theorem pure_apply (b : β) (reels : Reels α) (next : ℕ) :
    (pure b : Wiring α β) reels next = ⟨[], .ok (b, next)⟩ := rfl

theorem ofRun_ok {r : Run α β} {b : β} (h : r.result = .ok b) (reels : Reels α) (next : ℕ) :
    ofRun r reels next = ⟨r.trace, .ok (b, next)⟩ := by
  rw [ofRun, Run.bind_ok h, Run.pure_def, List.append_nil]

theorem ofRun_error {r : Run α β} {fault : Fault α} (h : r.result = .error fault) (reels : Reels α)
    (next : ℕ) : ofRun r reels next = ⟨r.trace, .error fault⟩ := by
  rw [ofRun, Run.bind_error h]

/-- **Whatever the wiring yields has the property.** -/
def Ensures (reels : Reels α) (w : Wiring α β) (P : β → Prop) : Prop :=
  ∀ next b next', (w reels next).result = .ok (b, next') → P b

/-- **The wiring yields something**, whichever identity is the next free one. -/
def Succeeds (reels : Reels α) (w : Wiring α β) : Prop :=
  ∀ next, ∃ b next', (w reels next).result = .ok (b, next')

variable {P : β → Prop} {Q : γ → Prop}

/-! ### One rule for every step -/

theorem Ensures.bind {m : Wiring α β} {f : β → Wiring α γ} (hm : Ensures reels m P)
    (hf : ∀ b, P b → Ensures reels (f b) Q) : Ensures reels (m >>= f) Q := by
  intro next c next' h
  rw [bind_apply] at h
  cases hr : (m reels next).result with
  | error e => rw [Run.bind_error hr] at h; cases h
  | ok p =>
    rw [Run.bind_ok hr] at h
    exact hf p.1 (hm _ _ _ hr) _ _ _ h

theorem Ensures.mono {w : Wiring α β} {P' : β → Prop} (hw : Ensures reels w P)
    (h : ∀ b, P b → P' b) : Ensures reels w P' :=
  fun next b next' hr => h b (hw next b next' hr)

theorem ensures_pure {b : β} (h : P b) : Ensures reels (pure b) P := by
  intro next c next' hc
  cases hc
  exact h

theorem ensures_throw (fault : Fault α) : Ensures reels (throw fault : Wiring α β) P := by
  intro next c next' hc
  cases hc

theorem ensures_place {n : ℕ} {ugen : Ugen α n} {inputs : Fin n → Signal α} {P : Signal α → Prop}
    (h : ∀ id, P (.node id ugen inputs)) : Ensures reels (place ugen inputs) P := by
  intro next c next' hc
  cases hc
  exact h next

theorem ensures_read : Ensures reels read (· = reels) := by
  intro next c next' hc
  cases hc
  rfl

theorem ensures_enter (entry : Entry α) : Ensures reels (enter entry) fun _ => True :=
  fun _ _ _ _ => trivial

/-- **Several inputs** are wired one after the other. -/
theorem Ensures.ofFnM {n : ℕ} {f : Fin n → Wiring α β} {P : Fin n → β → Prop}
    (hf : ∀ i, Ensures reels (f i) (P i)) :
    Ensures reels (Vector.ofFnM f) fun v => ∀ i, P i (v.get i) := by
  induction n with
  | zero =>
    rw [Vector.ofFnM_zero]
    exact ensures_pure fun i => i.elim0
  | succ n ih =>
    rw [Vector.ofFnM_succ]
    refine (ih fun i => hf i.castSucc).bind fun v hv => (hf (Fin.last n)).bind fun b hb => ?_
    refine ensures_pure fun i => ?_
    cases i using Fin.lastCases with
    | last =>
      show P (Fin.last n) (v.push b)[n]
      rw [Vector.getElem_push_last]
      exact hb
    | cast i =>
      show P i.castSucc (v.push b)[i.val]
      rw [Vector.getElem_push_lt i.isLt]
      exact hv i

theorem Succeeds.bind {m : Wiring α β} {f : β → Wiring α γ} (hm : Succeeds reels m)
    (hf : ∀ b, Succeeds reels (f b)) : Succeeds reels (m >>= f) := by
  intro next
  obtain ⟨b, next', hr⟩ := hm next
  obtain ⟨c, next'', hc⟩ := hf b next'
  refine ⟨c, next'', ?_⟩
  rw [bind_apply, Run.bind_ok hr]
  exact hc

theorem succeeds_pure (b : β) : Succeeds reels (pure b) := fun next => ⟨b, next, rfl⟩

theorem succeeds_place {n : ℕ} (ugen : Ugen α n) (inputs : Fin n → Signal α) :
    Succeeds reels (place ugen inputs) := fun next => ⟨.node next ugen inputs, next + 1, rfl⟩

theorem succeeds_read : Succeeds reels (read : Wiring α (Reels α)) :=
  fun next => ⟨reels, next, rfl⟩

theorem succeeds_enter (entry : Entry α) : Succeeds reels (enter entry) :=
  fun next => ⟨(), next, rfl⟩

theorem Succeeds.ofFnM {n : ℕ} {f : Fin n → Wiring α β} (hf : ∀ i, Succeeds reels (f i)) :
    Succeeds reels (Vector.ofFnM f) := by
  induction n with
  | zero =>
    rw [Vector.ofFnM_zero]
    exact succeeds_pure _
  | succ n ih =>
    rw [Vector.ofFnM_succ]
    exact (ih fun i => hf i.castSucc).bind fun v =>
      (hf (Fin.last n)).bind fun b => succeeds_pure _

/-! ### Both at once -/

/-- **The wiring yields something with the property**, whichever identity is the next free one. -/
def Yields (reels : Reels α) (w : Wiring α β) (P : β → Prop) : Prop :=
  ∀ next, ∃ b next', (w reels next).result = .ok (b, next') ∧ P b

theorem Succeeds.yields {w : Wiring α β} (hw : Succeeds reels w) (hP : Ensures reels w P) :
    Yields reels w P := by
  intro next
  obtain ⟨b, next', hr⟩ := hw next
  exact ⟨b, next', hr, hP next b next' hr⟩

theorem Yields.bind {m : Wiring α β} {f : β → Wiring α γ} (hm : Yields reels m P)
    (hf : ∀ b, P b → Yields reels (f b) Q) : Yields reels (m >>= f) Q := by
  intro next
  obtain ⟨b, next', hr, hb⟩ := hm next
  obtain ⟨c, next'', hc, hQ⟩ := hf b hb next'
  refine ⟨c, next'', ?_, hQ⟩
  rw [bind_apply, Run.bind_ok hr]
  exact hc

theorem Yields.mono {w : Wiring α β} {P' : β → Prop} (hw : Yields reels w P)
    (h : ∀ b, P b → P' b) : Yields reels w P' := by
  intro next
  obtain ⟨b, next', hr, hb⟩ := hw next
  exact ⟨b, next', hr, h b hb⟩

/-- What is yielded is yielded with all its properties. -/
theorem Yields.and {w : Wiring α β} {P' : β → Prop} (h : Yields reels w P) (h' : Yields reels w P') :
    Yields reels w fun b => P b ∧ P' b := by
  intro next
  obtain ⟨b, next', hr, hb⟩ := h next
  obtain ⟨b', next'', hr', hb'⟩ := h' next
  rw [hr] at hr'
  cases hr'
  exact ⟨b, next', hr, hb, hb'⟩

theorem yields_pure {b : β} (h : P b) : Yields reels (pure b) P := fun next => ⟨b, next, rfl, h⟩

theorem yields_place {n : ℕ} {ugen : Ugen α n} {inputs : Fin n → Signal α} {P : Signal α → Prop}
    (h : ∀ id, P (.node id ugen inputs)) : Yields reels (place ugen inputs) P :=
  fun next => ⟨_, next + 1, rfl, h next⟩

/-! ### How a wiring ends -/

/-- **How the wiring ends**, whichever identity is the next free one: with the fault, or with something if
there is none. -/
def Ends (reels : Reels α) (w : Wiring α β) : Option (Fault α) → Prop
  | none => Succeeds reels w
  | some fault => ∀ next, (w reels next).result = .error fault

section Ends

variable {m : Wiring α β} {f : β → Wiring α γ} {fault : Fault α} {fate : Option (Fault α)}

theorem ends_throw (fault : Fault α) : Ends reels (throw fault : Wiring α β) (some fault) :=
  fun _ => rfl

/-- After a fault there is nothing more. -/
theorem Ends.bind_of_fault (hm : Ends reels m (some fault)) : Ends reels (m >>= f) (some fault) := by
  intro next
  rw [bind_apply, Run.bind_error (hm next)]

theorem Succeeds.bind_ends (hm : Succeeds reels m) (hf : ∀ b, Ends reels (f b) fate) :
    Ends reels (m >>= f) fate := by
  cases fate with
  | none => exact hm.bind hf
  | some fault =>
    intro next
    obtain ⟨b, next', hr⟩ := hm next
    rw [bind_apply, Run.bind_ok hr]
    exact hf b next'

/-- What never fails leaves the end as it is. -/
theorem Ends.bind (hm : Ends reels m fate) (hf : ∀ b, Succeeds reels (f b)) :
    Ends reels (m >>= f) fate := by
  cases fate with
  | none => exact Succeeds.bind hm hf
  | some fault => exact hm.bind_of_fault

/-- **Several inputs** end with the first of their faults. -/
theorem Ends.ofFnM {n : ℕ} {f : Fin n → Wiring α β} {fate : Fin n → Option (Fault α)}
    (hf : ∀ i, Ends reels (f i) (fate i)) :
    Ends reels (Vector.ofFnM f) ((List.finRange n).findSome? fate) := by
  induction n with
  | zero =>
    rw [Vector.ofFnM_zero]
    exact succeeds_pure _
  | succ n ih =>
    rw [Vector.ofFnM_succ, List.finRange_succ_last, List.findSome?_append, List.findSome?_map]
    have hfirst : Ends reels (Vector.ofFnM fun i => f i.castSucc)
        ((List.finRange n).findSome? (fate ∘ Fin.castSucc)) := ih fun i => hf i.castSucc
    cases hfate : (List.finRange n).findSome? (fate ∘ Fin.castSucc) with
    | some fault =>
      rw [hfate] at hfirst
      exact hfirst.bind_of_fault
    | none =>
      rw [hfate] at hfirst
      have hlast : Ends reels (f (Fin.last n)) (fate (Fin.last n)) := hf _
      rw [Option.none_or, List.findSome?_singleton]
      exact Succeeds.bind_ends hfirst fun v => hlast.bind fun b => succeeds_pure _

/-- **The two ways to end**, told from the result. -/
theorem Ends.result_iff (hm : Ends reels m fate) (next : ℕ) :
    (∀ fault, (m reels next).result = .error fault ↔ fate = some fault) ∧
      ((∃ b next', (m reels next).result = .ok (b, next')) ↔ fate = none) := by
  cases fate with
  | none =>
    obtain ⟨b, next', hr⟩ := hm next
    rw [hr]
    exact ⟨fun fault => ⟨nofun, nofun⟩, fun _ => rfl, fun _ => ⟨b, next', rfl⟩⟩
  | some fault =>
    rw [hm next]
    exact ⟨fun fault' => by rw [Except.error.injEq, Option.some.injEq], nofun, nofun⟩

end Ends

end Polyphony.Wiring
