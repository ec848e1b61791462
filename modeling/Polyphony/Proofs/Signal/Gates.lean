import Polyphony.Proofs.Instrument

/-!
# Gates next to each other, and within each other

Gates are half-open. So gates from one time to the next, along a list of times in order, are open in turn,
and gates within each other are open where all of them are.

* `Signal.tiles`, `Signal.nested`: a mix of gates next to each other, and gates within each other.
* `Signal.Tiles`: what the gates of a list of times are. `Tiles.countP_isOpen`, `Tiles.sum_sample`: **one of
  them is open, and plays the signal, as long as the list lasts.**
* `Signal.gates_tile`: so they are one gate, and gating twice does not differ from gating once.
-/

namespace Polyphony

open Wiring Exact

/-! ### Wiring gates -/

namespace Signal

section Wirings

variable {α : Type} [Scalar α]

/-- Gates from one time to the next, to be mixed as they are. -/
def gates (x : Signal α) : α → List α → Wiring α (List (α × Signal α))
  | _, [] => return []
  | first, next :: times => do
    let g ← x.gate first next
    return (1.0, g) :: (← gates x next times)

/-- **Gates next to each other**, mixed. -/
def tiles (x : Signal α) (first : α) (times : List α) : Wiring α (Signal α) := do
  mix (← x.gates first times).toArray

/-- **Gates within each other**, the first of the list innermost. -/
def nested (x : Signal α) (spans : List (Span α)) : Wiring α (Signal α) :=
  spans.foldlM (fun s span => s.gate span.start span.finish) x

/-- Whether a signal is a gate that is open at a time. -/
def isOpen (t : α) : Signal α → Bool
  | node _ (.gate span) _ => span.contains t
  | _ => false

end Wirings

variable {x g : Signal ℝ} {first last next t : ℝ} {later reels : Reels ℝ}

/-- A gate on a signal, between two times. -/
def IsGate (x : Signal ℝ) (start finish : ℝ) (g : Signal ℝ) : Prop :=
  ∃ id span, span.start = start ∧ span.finish = finish ∧ g = node id (.gate span) fun _ => x

theorem IsGate.sample_eq (h : x.IsGate first next g) (later : Reels ℝ) (t : ℝ) :
    g.sample later t = if first ≤ t ∧ t < next then x.sample later t else 0 := by
  obtain ⟨id, span, rfl, rfl, rfl⟩ := h
  rw [sample_node, Ugen.sample_gate]

theorem IsGate.isOpen_iff (h : x.IsGate first next g) : g.isOpen t = true ↔ first ≤ t ∧ t < next := by
  obtain ⟨id, span, rfl, rfl, rfl⟩ := h
  show span.contains t = true ↔ _
  rw [Span.contains, Bool.and_eq_true, le_iff, lt_iff]

/-- A gate is wired between times that are in order. -/
theorem yields_gate (x : Signal ℝ) (h : first ≤ next) : Yields reels (x.gate first next) (x.IsGate first next) := by
  have hspan := x.gate_span ⟨first, next, decide_eq_false (not_lt.2 h)⟩
  dsimp only at hspan
  rw [hspan]
  exact yields_place fun id => ⟨id, _, rfl, rfl, rfl⟩

/-! ### Gates next to each other -/

/-- **Gates on a signal that follow each other** from a first time to a last one. -/
def Tiles (x : Signal ℝ) : ℝ → List (Signal ℝ) → ℝ → Prop
  | first, [], last => first = last
  | first, g :: gates, last => ∃ next, first ≤ next ∧ x.IsGate first next g ∧ x.Tiles next gates last

namespace Tiles

variable {gates : List (Signal ℝ)}

theorem le (h : x.Tiles first gates last) : first ≤ last := by
  induction gates generalizing first with
  | nil => exact h.le
  | cons g gates ih =>
    obtain ⟨next, hle, -, hrest⟩ := h
    exact hle.trans (ih hrest)

/-- What is there from a first time to the next, and from there to a last one, is there all the time. -/
theorem ite_add_ite {M : Type} [AddMonoid M] (v : M) (hfirst : first ≤ next) (hlast : next ≤ last) :
    (if first ≤ t ∧ t < next then v else 0) + (if next ≤ t ∧ t < last then v else 0) =
      if first ≤ t ∧ t < last then v else 0 := by
  by_cases ht : t < next
  · have hbefore : ¬ (next ≤ t ∧ t < last) := fun hin => absurd ht (not_lt.2 hin.1)
    have hsame : first ≤ t ∧ t < next ↔ first ≤ t ∧ t < last :=
      ⟨fun hin => ⟨hin.1, ht.trans_le hlast⟩, fun hin => ⟨hin.1, ht⟩⟩
    rw [if_neg hbefore, add_zero, if_congr hsame rfl rfl]
  · have hafter : ¬ (first ≤ t ∧ t < next) := fun hin => ht hin.2
    have hsame : next ≤ t ∧ t < last ↔ first ≤ t ∧ t < last :=
      ⟨fun hin => ⟨hfirst.trans hin.1, hin.2⟩, fun hin => ⟨not_lt.1 ht, hin.2⟩⟩
    rw [if_neg hafter, zero_add, if_congr hsame rfl rfl]

/-- No time lies between a time and itself. -/
theorem ite_self_eq {M : Type} [Zero M] (v : M) : (if first ≤ t ∧ t < first then v else 0) = 0 :=
  if_neg fun hin => absurd hin.2 (not_lt.2 hin.1)

/-- **One gate is open** as long as the list lasts, and none before or after. -/
theorem countP_isOpen (h : x.Tiles first gates last) (t : ℝ) :
    gates.countP (isOpen t) = if first ≤ t ∧ t < last then 1 else 0 := by
  induction gates generalizing first with
  | nil =>
    obtain rfl : first = last := h
    rw [ite_self_eq, List.countP_nil]
  | cons g gates ih =>
    obtain ⟨next, hle, hgate, hrest⟩ := h
    rw [List.countP_cons, ih hrest, if_congr hgate.isOpen_iff rfl rfl, add_comm,
      ite_add_ite 1 hle hrest.le]

/-- **Their sum plays the signal** as long as the list lasts. -/
theorem sum_sample (h : x.Tiles first gates last) (later : Reels ℝ) (t : ℝ) :
    (gates.map fun g => g.sample later t).sum = if first ≤ t ∧ t < last then x.sample later t else 0 := by
  induction gates generalizing first with
  | nil =>
    obtain rfl : first = last := h
    rw [ite_self_eq, List.map_nil, List.sum_nil]
  | cons g gates ih =>
    obtain ⟨next, hle, hgate, hrest⟩ := h
    rw [List.map_cons, List.sum_cons, ih hrest, hgate.sample_eq, ite_add_ite _ hle hrest.le]

end Tiles

/-- **Along times in order every gate is wired**, and each begins where the one before it ends. -/
theorem yields_gates (x : Signal ℝ) {times : List ℝ} (h : (first :: times).IsChain (· ≤ ·)) :
    Yields reels (x.gates first times) fun parts =>
      (∀ p ∈ parts, p.1 = 1.0) ∧ x.Tiles first (parts.map Prod.snd) (times.getLastD first) := by
  induction times generalizing first with
  | nil => exact yields_pure ⟨nofun, rfl⟩
  | cons next times ih =>
    obtain ⟨hle, hrest⟩ := List.isChain_cons_cons.1 h
    refine (yields_gate x hle).bind fun g hg => (ih hrest).bind fun parts hparts => yields_pure ⟨?_, ?_⟩
    · intro p hp
      rcases List.mem_cons.1 hp with rfl | hp
      · rfl
      · exact hparts.1 p hp
    · rw [List.getLastD_cons]
      exact ⟨next, hle, hg, hparts.2⟩

/-- The inputs of a mix are its parts. -/
theorem yields_mix_inputList (parts : Array (ℝ × Signal ℝ)) :
    Yields reels (mix parts) fun m => m.inputList = parts.toList.map Prod.snd := by
  refine yields_place fun id => ?_
  show List.ofFn (fun i : Fin parts.size => parts[i].2) = _
  refine List.ext_getElem (by simp) fun i _ _ => ?_
  rw [List.getElem_ofFn, List.getElem_map]
  rfl

/-- **A mix of gates next to each other**: one of them is open and is what the mix plays, as long as the list
of the times lasts. -/
theorem yields_tiles (x : Signal ℝ) {times : List ℝ} (h : (first :: times).IsChain (· ≤ ·)) :
    Yields reels (x.tiles first times) fun m =>
      (∀ t, m.inputList.countP (isOpen t) = if first ≤ t ∧ t < times.getLastD first then 1 else 0) ∧
      ∀ later t, m.sample later t =
        if first ≤ t ∧ t < times.getLastD first then x.sample later t else 0 := by
  refine (yields_gates x h).bind fun parts hparts => ?_
  obtain ⟨hgains, htiles⟩ := hparts
  refine ((yields_mix_inputList _).and (yields_mix _)).mono fun m hm => ⟨fun t => ?_, fun later t => ?_⟩
  · rw [hm.1, List.toList_toArray, htiles.countP_isOpen]
  · have hunit : parts.map (fun p => p.1 * p.2.sample later t) =
        (parts.map Prod.snd).map fun g => g.sample later t := by
      rw [List.map_map]
      refine List.map_congr_left fun p hp => ?_
      rw [hgains p hp, one_lit, one_mul]
      rfl
    rw [hm.2, List.toList_toArray, hunit, htiles.sum_sample]

/-! ### Gates within each other -/

/-- **Gates within each other** are open where all of them are. -/
theorem yields_nested (x : Signal ℝ) (spans : List (Span ℝ)) : Yields reels (x.nested spans) fun s =>
    ∀ later t, s.sample later t =
      if ∀ span ∈ spans, span.start ≤ t ∧ t < span.finish then x.sample later t else 0 := by
  induction spans generalizing x with
  | nil => exact yields_pure fun later t => by simp
  | cons span spans ih =>
    unfold nested
    rw [List.foldlM_cons, gate_span]
    refine Yields.bind (P := fun g => ∀ later t, g.sample later t =
      if span.start ≤ t ∧ t < span.finish then x.sample later t else 0) ?_ fun g hg => ?_
    · exact yields_place fun id later t => Ugen.sample_gate span _ t
    · refine (ih g).mono fun s hs later t => ?_
      rw [hs, hg, if_congr (List.forall_mem_cons.trans and_comm) rfl rfl]
      exact (ite_and ..).symm

/-- **Gates in a row are one gate, and a gate within gates is open where all are.** Along any list of times in
order, gates from one time to the next on one signal can be wired and mixed. One of them is open from the
first time to the last, none before or after, and the mix plays what a single gate from the first time to the
last one plays. Gates within each other play the signal at the times that lie in all their spans, and
nothing at all other times, so that one more gate with one of their spans changes nothing. -/
theorem gates_tile (x : Signal ℝ) (reels : Reels ℝ) :
    (∀ (first : ℝ) (times : List ℝ), (first :: times).IsChain (· ≤ ·) →
      Yields reels (x.tiles first times) fun m =>
        (∀ t, m.inputList.countP (isOpen t) = if first ≤ t ∧ t < times.getLastD first then 1 else 0) ∧
        Yields reels (x.gate first (times.getLastD first)) fun g =>
          ∀ later t, m.sample later t = g.sample later t) ∧
    ∀ spans : List (Span ℝ), Yields reels (x.nested spans) fun s =>
      (∀ later t, s.sample later t =
        if ∀ span ∈ spans, span.start ≤ t ∧ t < span.finish then x.sample later t else 0) ∧
      ∀ span ∈ spans, Yields reels (s.gate span.start span.finish) fun g =>
        ∀ later t, g.sample later t = s.sample later t := by
  constructor
  · intro first times h
    have hle : first ≤ times.getLastD first := by
      have hgates : Yields reels (x.gates first times) _ := yields_gates x h
      obtain ⟨parts, -, -, -, htiles⟩ := hgates 0
      exact htiles.le
    refine (yields_tiles x h).mono fun m hm => ⟨hm.1, ?_⟩
    refine (yields_gate x hle).mono fun g hg later t => ?_
    rw [hm.2, hg.sample_eq]
  · intro spans
    refine (yields_nested x spans).mono fun s hs => ⟨hs, fun span hspan => ?_⟩
    rw [gate_span]
    refine yields_place fun id later t => ?_
    rw [sample_node, Ugen.sample_gate, hs]
    by_cases hin : span.start ≤ t ∧ t < span.finish
    · rw [if_pos hin]
    · have hout : ¬ ∀ span ∈ spans, span.start ≤ t ∧ t < span.finish := fun hall => hin (hall span hspan)
      rw [if_neg hin, if_neg hout]

/-- A constant, gated from zero to one, from one to one and from one to three, and gated twice. -/
theorem gates_tile_constant :
    (Yields #[] ((node 0 (.constant 2) Fin.elim0 : Signal ℝ).tiles 0 [1, 1, 3]) fun m =>
      m.inputList.countP (isOpen 1) = 1 ∧ m.inputList.countP (isOpen 3) = 0) ∧
    Yields #[] ((node 0 (.constant 2) Fin.elim0 : Signal ℝ).nested
        [⟨0, 2, decide_eq_false (by norm_num)⟩, ⟨1, 3, decide_eq_false (by norm_num)⟩]) fun s =>
      s.sample #[] 1 = 2 := by
  obtain ⟨htiles, hnested⟩ := gates_tile (node 0 (.constant 2) Fin.elim0) #[]
  constructor
  · refine (htiles 0 [1, 1, 3] (by simp)).mono fun m hm => ?_
    rw [hm.1, hm.1]
    norm_num
  · refine (hnested _).mono fun s hs => ?_
    rw [hs.1, if_pos]
    · rfl
    · simp

end Signal

end Polyphony
