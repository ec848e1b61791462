import Mathlib.Data.List.Basic
import Polyphony.Score.Sequencer

/-!
# The steps of the sequencer

* `Sequencer.checkedStep`: a step in closed form. Whatever is checked is checked before anything is
  changed, so **a refused token leaves the state as it was** (`Sequencer.perform_refused`).
* `step_cases`: **what a token that is not refused can do**, one case for each kind of command.
* `Sequencer.Reached`: the states that tokens lead to from the start of a voice. Their tempo and
  their length are not zero (`Reached.ready`), so nothing is ever divided by zero.
* `step_flaw_iff`: whether a token is refused as flawed depends on the token alone. What is wrong
  with it is `Token.flaw?`, which does not look at any state.
* `Sequencer.run`: the state machine by itself, which ends at the first token that is refused.
-/

namespace Polyphony

variable {α : Type} [Scalar α]

theorem bind_eq_ok {ε β γ : Type} {m : Except ε β} {f : β → Except ε γ} {c : γ}
    (h : m >>= f = .ok c) : ∃ b, m = .ok b ∧ f b = .ok c := by
  cases m with
  | error e => cases h
  | ok b => exact ⟨b, rfl, h⟩

theorem bind_pure_eq_error_iff {ε β γ : Type} {m : Except ε β} {f : β → γ} {e : ε} :
    (m >>= fun b => pure (f b)) = .error e ↔ m = .error e := by
  cases m <;> simp [bind, Except.bind, pure, Except.pure]

/-- The names of the notes. -/
def Pitch.names : List (List Char) :=
  [['c'], ['c', '+'], ['d', '-'], ['d'], ['d', '+'], ['e', '-'], ['e'], ['f'], ['f', '+'],
   ['g', '-'], ['g'], ['g', '+'], ['a', '-'], ['a'], ['a', '+'], ['b', '-'], ['b'], ['b', '+'],
   ['c', '-'], ['p'], ['r']]

instance Pitch.decidableMemNames (command : List Char) : Decidable (command ∈ Pitch.names) :=
  inferInstance

theorem Pitch.map_fst_table : (Pitch.table (α := α)).map Prod.fst = Pitch.names := rfl

theorem Pitch.frequency?_eq_none_iff (name : List Char) :
    (Pitch.frequency? name : Option α) = none ↔ name ∉ Pitch.names := by
  rw [Pitch.frequency?, List.lookup_eq_none_iff, ← Pitch.map_fst_table (α := α)]
  constructor
  · intro h hmem
    obtain ⟨p, hp, rfl⟩ := List.mem_map.1 hmem
    simpa using h p hp
  · intro h p hp
    rw [bne_iff_ne]
    rintro rfl
    exact h (List.mem_map_of_mem hp)

theorem Pitch.mem_names_of_frequency? {name : List Char} {f : α}
    (h : Pitch.frequency? name = some f) : name ∈ Pitch.names := by
  by_contra hn
  rw [(Pitch.frequency?_eq_none_iff _).2 hn] at h
  cases h

/-- **What is wrong with a token.** -/
def Token.flaw? (t : Token) : Option ScoreFlaw :=
  match t.command with
  | ['o'] => if t.value? = none then some .needsNumber else none
  | ['t'] =>
    if t.value? = none then some .needsNumber
    else if t.value? = some 0 then some .tempoNotPositive else none
  | ['l'] =>
    if t.value? = none then some .needsNumber
    else if t.value? = some 0 then some .lengthNotPositive else none
  | ['v'] => if t.value? = none then some .needsNumber else none
  | ['>'] => none
  | ['<'] => none
  | ['&'] => none
  | [] => some .noCommand
  | command =>
    if command ∈ Pitch.names then
      if t.value? = some 0 then some .noteLengthNotPositive else none
    else some .unknownCommand

namespace Sequencer

variable {s after : Sequencer α} {t : Token} {n : Option (Note α)}

/-! ### Steps in closed form -/

/-- **A step in closed form**: what is checked, and what is changed once the check is passed. -/
def checkedStep (s : Sequencer α) (t : Token) : Except Refusal (Sequencer α × Option (Note α)) :=
  match t.command with
  | ['o'] => do return ({ s with octave := ← setting t }, none)
  | ['t'] => do return ({ s with tempo := ← positiveSetting t .tempoNotPositive }, none)
  | ['l'] => do return ({ s with length := ← positiveSetting t .lengthNotPositive }, none)
  | ['v'] => do return ({ s with volume := ← setting t }, none)
  | ['>'] => return ({ s with octave := s.octave + 1 }, none)
  | ['<'] => return ({ s with octave := s.octave - 1 }, none)
  | ['&'] => return (s, none)
  | [] => throw (.flaw .noCommand)
  | command =>
    match Pitch.frequency? command with
    | some frequency => do
      let n ← s.note t frequency
      return ({ s with time := n.finish }, some n)
    | none => throw (.flaw .unknownCommand)

/-- **What is left of a token**, in closed form: the changed state, or the same one if it is refused. -/
theorem perform_cases (s : Sequencer α) (t : Token) :
    (∃ after n, s.checkedStep t = .ok (after, n) ∧ s.perform t = (.ok n, after)) ∨
    ∃ refusal, s.checkedStep t = .error refusal ∧ s.perform t = (.error refusal, s) := by
  unfold checkedStep
  split
  case h_1 hc | h_4 hc =>
    unfold perform act
    simp only [hc]
    cases setting t with
    | error refusal => exact .inr ⟨refusal, rfl, rfl⟩
    | ok v => exact .inl ⟨_, none, rfl, rfl⟩
  case h_2 hc | h_3 hc =>
    unfold perform act
    simp only [hc]
    cases positiveSetting t _ with
    | error refusal => exact .inr ⟨refusal, rfl, rfl⟩
    | ok v => exact .inl ⟨_, none, rfl, rfl⟩
  case h_5 hc | h_6 hc | h_7 hc =>
    unfold perform act
    simp only [hc]
    exact .inl ⟨_, none, rfl, rfl⟩
  case h_8 hc =>
    unfold perform act
    simp only [hc]
    exact .inr ⟨_, rfl, rfl⟩
  case h_9 ho ht hl hv hu hd htie hnil =>
    unfold perform act
    cases hf : Pitch.frequency? (α := α) t.command with
    | none =>
      simp only [hf]
      exact .inr ⟨_, rfl, rfl⟩
    | some f =>
      simp only [hf]
      cases hn : s.note t f with
      | error refusal =>
        refine .inr ⟨refusal, rfl, ?_⟩
        show (liftM (s.note t f) >>= _ : Action α _).run.run s = _
        rw [hn]
        rfl
      | ok n =>
        refine .inl ⟨_, some n, rfl, ?_⟩
        show (liftM (s.note t f) >>= _ : Action α _).run.run s = _
        rw [hn]
        rfl

theorem step_eq_checkedStep (s : Sequencer α) (t : Token) : s.step t = s.checkedStep t := by
  unfold step
  obtain ⟨after, n, hstep, hperform⟩ | ⟨refusal, hstep, hperform⟩ := perform_cases s t <;>
    rw [hstep, hperform] <;> rfl

/-- A token that is not refused leaves the state after it. -/
theorem perform_of_ok (h : s.step t = .ok (after, n)) : s.perform t = (.ok n, after) := by
  rw [step_eq_checkedStep] at h
  obtain ⟨after', n', hstep, hperform⟩ | ⟨refusal, hstep, -⟩ := perform_cases s t <;> rw [h] at hstep <;>
    cases hstep
  exact hperform

/-- A refused token leaves the state that was there. -/
theorem perform_of_error {refusal : Refusal} (h : s.step t = .error refusal) :
    s.perform t = (.error refusal, s) := by
  rw [step_eq_checkedStep] at h
  obtain ⟨after', n', hstep, -⟩ | ⟨refusal', hstep, hperform⟩ := perform_cases s t <;> rw [h] at hstep <;>
    cases hstep
  exact hperform

/-- **A refused token leaves the state as it was.** -/
theorem perform_refused {refusal : Refusal} (h : (s.perform t).1 = .error refusal) :
    (s.perform t).2 = s := by
  obtain ⟨after, n, -, hperform⟩ | ⟨refusal', -, hperform⟩ := perform_cases s t <;> rw [hperform] at h ⊢
  cases h

/-! ### What a token can do -/

/-- **What a token can do**, one case for each kind of command. -/
inductive Acts (s : Sequencer α) (t : Token) : Sequencer α → Option (Note α) → Prop
  | octave {v : ℕ} : t.command = ['o'] → t.value? = some v → Acts s t { s with octave := v } none
  | tempo {v : ℕ} : t.command = ['t'] → t.value? = some v → v ≠ 0 →
      Acts s t { s with tempo := v } none
  | length {v : ℕ} : t.command = ['l'] → t.value? = some v → v ≠ 0 →
      Acts s t { s with length := v } none
  | volume {v : ℕ} : t.command = ['v'] → t.value? = some v → Acts s t { s with volume := v } none
  | up : t.command = ['>'] → Acts s t { s with octave := s.octave + 1 } none
  | down : t.command = ['<'] → Acts s t { s with octave := s.octave - 1 } none
  | tie : t.command = ['&'] → Acts s t s none
  | note {f : α} {m : Note α} : Pitch.frequency? t.command = some f → s.note t f = .ok m →
      Acts s t { s with time := m.finish } (some m)

theorem setting_eq_ok {v : ℕ} (h : setting t = .ok v) : t.value? = some v := by
  unfold setting at h
  split at h <;> simp_all

theorem positiveSetting_eq_ok {v : ℕ} {flaw : ScoreFlaw} (h : positiveSetting t flaw = .ok v) :
    t.value? = some v ∧ v ≠ 0 := by
  unfold positiveSetting at h
  obtain ⟨w, hw, h⟩ := bind_eq_ok h
  split at h <;> cases h
  exact ⟨setting_eq_ok hw, ‹_›⟩

/-- **A token that is not refused does one of these things.** -/
theorem step_cases (h : s.step t = .ok (after, n)) : Acts s t after n := by
  rw [step_eq_checkedStep] at h
  unfold checkedStep at h
  split at h
  case h_1 hc =>
    obtain ⟨v, hv, h⟩ := bind_eq_ok h
    cases h; exact .octave hc (setting_eq_ok hv)
  case h_2 hc =>
    obtain ⟨v, hv, h⟩ := bind_eq_ok h
    obtain ⟨hv, h0⟩ := positiveSetting_eq_ok hv
    cases h; exact .tempo hc hv h0
  case h_3 hc =>
    obtain ⟨v, hv, h⟩ := bind_eq_ok h
    obtain ⟨hv, h0⟩ := positiveSetting_eq_ok hv
    cases h; exact .length hc hv h0
  case h_4 hc =>
    obtain ⟨v, hv, h⟩ := bind_eq_ok h
    cases h; exact .volume hc (setting_eq_ok hv)
  case h_5 hc => cases h; exact .up hc
  case h_6 hc => cases h; exact .down hc
  case h_7 hc => cases h; exact .tie hc
  case h_8 => cases h
  case h_9 =>
    split at h
    · obtain ⟨m, hm, h⟩ := bind_eq_ok h
      cases h; exact .note ‹_› hm
    · cases h

/-! ### States that can be reached -/

/-- A state in which nothing is divided by zero. -/
structure Ready (s : Sequencer α) : Prop where
  tempo_pos : 0 < s.tempo
  length_pos : 0 < s.length

theorem ready_start : (start : Sequencer α).Ready := ⟨Nat.succ_pos _, Nat.succ_pos _⟩

theorem Ready.step (hs : s.Ready) (h : s.step t = .ok (after, n)) : after.Ready := by
  cases step_cases h with
  | tempo _ _ h0 => exact ⟨Nat.pos_of_ne_zero h0, hs.length_pos⟩
  | length _ _ h0 => exact ⟨hs.tempo_pos, Nat.pos_of_ne_zero h0⟩
  | octave | volume | up | down | tie | note => exact ⟨hs.tempo_pos, hs.length_pos⟩

/-- **The states that tokens lead to** from the start of a voice. -/
inductive Reached : Sequencer α → Prop
  | start : Reached start
  | step {s after : Sequencer α} {t : Token} {n : Option (Note α)} :
      Reached s → s.step t = .ok (after, n) → Reached after

theorem Reached.ready (h : s.Reached) : s.Ready := by
  induction h with
  | start => exact ready_start
  | step _ hstep ih => exact ih.step hstep

/-! ### Refusals -/

variable {flaw : ScoreFlaw}

/-- A conversion of numbers never finds a flaw. -/
theorem number_bind_ne_flaw {β γ : Type} {r : Except NumberFault β} {f : β → Except Refusal γ}
    (hf : ∀ b, f b ≠ .error (.flaw flaw)) : number r >>= f ≠ .error (.flaw flaw) := by
  cases r with
  | error e => simp [number, Except.mapError, bind, Except.bind]
  | ok b => exact hf b

theorem note_flaw_iff {f : α} (hs : 0 < s.length) :
    s.note t f = .error (.flaw flaw) ↔ t.value? = some 0 ∧ flaw = .noteLengthNotPositive := by
  have hd : t.value?.getD s.length = 0 ↔ t.value? = some 0 := by
    cases t.value? <;> simp
    omega
  unfold note
  by_cases h0 : t.value? = some 0
  · simp [h0, eq_comm, throw, throwThe, MonadExceptOf.throw, bind, Except.bind]
  · simp only [hd, h0, if_false, false_and, iff_false]
    refine number_bind_ne_flaw fun _ => number_bind_ne_flaw fun _ => number_bind_ne_flaw fun _ =>
      number_bind_ne_flaw fun _ => ?_
    simp [pure, Except.pure]

/-- A token whose command names a note, or names nothing. -/
theorem flaw?_of_name (ho : t.command ≠ ['o']) (ht : t.command ≠ ['t']) (hl : t.command ≠ ['l'])
    (hv : t.command ≠ ['v']) (hu : t.command ≠ ['>']) (hd : t.command ≠ ['<'])
    (htie : t.command ≠ ['&']) (hnil : t.command ≠ []) :
    t.flaw? = if t.command ∈ Pitch.names then
        if t.value? = some 0 then some .noteLengthNotPositive else none
      else some .unknownCommand := by
  unfold Token.flaw?
  split <;> simp_all

/-- **Whether a token is refused as flawed depends on the token alone**, in every state whose length
is not zero. -/
theorem step_flaw_iff (hs : 0 < s.length) :
    s.step t = .error (.flaw flaw) ↔ t.flaw? = some flaw := by
  rw [step_eq_checkedStep]
  unfold checkedStep
  split
  case h_1 hc | h_4 hc =>
    cases hv : t.value? <;>
      simp [Token.flaw?, hc, hv, setting, bind, Except.bind, pure, Except.pure]
  case h_2 hc | h_3 hc =>
    rcases hv : t.value? with - | v
    · simp [Token.flaw?, hc, hv, setting, positiveSetting, bind, Except.bind]
    · by_cases h0 : v = 0 <;>
        simp [Token.flaw?, hc, hv, h0, setting, positiveSetting, bind, Except.bind, pure,
          Except.pure, throw, throwThe, MonadExceptOf.throw]
  case h_5 hc | h_6 hc | h_7 hc => simp [Token.flaw?, hc, pure, Except.pure]
  case h_8 hc => simp [Token.flaw?, hc, throw, throwThe, MonadExceptOf.throw]
  case h_9 ho ht hl hv hu hd htie hnil =>
    -- no other command: the table of the names decides, and then the note length
    rw [flaw?_of_name ho ht hl hv hu hd htie hnil]
    cases hf : (Pitch.frequency? t.command : Option α) with
    | none =>
      rw [if_neg ((Pitch.frequency?_eq_none_iff _).1 hf)]
      simp [throw, throwThe, MonadExceptOf.throw]
    | some f =>
      rw [if_pos (Pitch.mem_names_of_frequency? hf)]
      simp only [bind_pure_eq_error_iff]
      rw [note_flaw_iff hs]
      by_cases h0 : t.value? = some 0 <;> simp [h0, eq_comm]

theorem flaw?_of_step_ok (hs : 0 < s.length) (h : s.step t = .ok (after, n)) : t.flaw? = none := by
  cases hf : t.flaw? with
  | none => rfl
  | some flaw => rw [(step_flaw_iff hs).2 hf] at h; cases h

/-! ### The state machine by itself -/

/-- **The state after tokens and the notes they give**, as long as no token is refused. -/
def run (s : Sequencer α) : List Token → Except Refusal (Sequencer α × List (Note α))
  | [] => .ok (s, [])
  | t :: rest => do
    let (after, n) ← s.step t
    let (last, notes) ← after.run rest
    return (last, n.toList ++ notes)

theorem run_cons {ts : List Token} {last : Sequencer α} {notes : List (Note α)}
    (h : s.step t = .ok (after, n)) (hr : after.run ts = .ok (last, notes)) :
    s.run (t :: ts) = .ok (last, n.toList ++ notes) := by
  simp [run, h, hr, bind, Except.bind, pure, Except.pure]

end Sequencer

end Polyphony
