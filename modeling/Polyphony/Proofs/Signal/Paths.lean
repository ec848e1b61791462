import Mathlib.Algebra.BigOperators.Group.Finset.Sigma
import Mathlib.Data.Finset.Sort
import Mathlib.Data.List.Induction
import Polyphony.Signal.Basic

/-!
# Paths and wires

A path goes from a signal to one of its places and names an input by its position at every step. A
generator that has several paths is one that is wired several times, or lies below such a one.

* `Signal.follow`: where a path leads. **The places are what paths lead to**
  (`Signal.mem_places_iff_follow`), and no path leads back (`Signal.follow_eq_self`).
* `Signal.nodes`, `Signal.wires`: the generators of a signal, each of them once, and their inputs.
* `Signal.wiresTo`: the inputs that a generator is wired to. There are two of them just if two paths
  end in different wires (`Signal.one_lt_card_wiresTo`).
* `Signal.exists_wired_twice`: **what has two paths lies below a generator that is wired twice**, or is
  one.
-/

namespace Polyphony

variable {α : Type} [Scalar α]

namespace Signal

variable {s a b c : Signal α}

/-! ### Places -/

theorem mem_places_iff : a ∈ s.places ↔ a = s ∨ ∃ i, a ∈ (s.inputs i).places := by
  cases s with
  | node id ugen inputs =>
    rw [places, List.mem_cons, List.mem_flatMap]
    simp only [List.mem_finRange, true_and]
    rfl

@[simp] theorem self_mem_places (s : Signal α) : s ∈ s.places := mem_places_iff.2 (.inl rfl)

theorem places_of_input (i : Fin s.arity) (h : a ∈ (s.inputs i).places) : a ∈ s.places :=
  mem_places_iff.2 (.inr ⟨i, h⟩)

theorem input_mem_places (i : Fin s.arity) : s.inputs i ∈ s.places :=
  places_of_input i (self_mem_places _)

theorem places_trans (hb : b ∈ s.places) (ha : a ∈ b.places) : a ∈ s.places := by
  induction s with
  | node id ugen inputs ih =>
    rcases mem_places_iff.1 hb with rfl | ⟨i, hi⟩
    · exact ha
    · exact places_of_input i (ih i hi)

/-- Below an input there are fewer places. -/
theorem length_places_input (s : Signal α) (i : Fin s.arity) :
    (s.inputs i).places.length < s.places.length := by
  cases s with
  | node id ugen inputs =>
    have hmem : (inputs i).places ∈ (List.finRange _).map fun i => (inputs i).places :=
      List.mem_map_of_mem (List.mem_finRange i)
    rw [places, List.length_cons, List.flatMap_def]
    exact Nat.lt_succ_of_le (List.sublist_flatten_of_mem hmem).length_le

theorem length_places_le (h : a ∈ s.places) : a.places.length ≤ s.places.length := by
  induction s with
  | node id ugen inputs ih =>
    rcases mem_places_iff.1 h with rfl | ⟨i, hi⟩
    · exact le_rfl
    · exact (ih i hi).trans (length_places_input _ i).le

/-- **No generator is wired below itself.** -/
theorem not_mem_places_input (s : Signal α) (i : Fin s.arity) : s ∉ (s.inputs i).places :=
  fun h => absurd (length_places_le h) (length_places_input s i).not_ge

/-! ### Paths -/

/-- **Where a path leads.** At every step it names an input by its position. -/
def follow : Signal α → List ℕ → Option (Signal α)
  | s, [] => some s
  | s, k :: path => if h : k < s.arity then (s.inputs ⟨k, h⟩).follow path else none

@[simp] theorem follow_nil (s : Signal α) : s.follow [] = some s := rfl

theorem follow_cons (s : Signal α) (k : ℕ) (path : List ℕ) : s.follow (k :: path) =
    if h : k < s.arity then (s.inputs ⟨k, h⟩).follow path else none := rfl

theorem follow_append (s : Signal α) (p q : List ℕ) :
    s.follow (p ++ q) = (s.follow p).bind (·.follow q) := by
  induction p generalizing s with
  | nil => rfl
  | cons k p ih =>
    rw [List.cons_append, follow_cons, follow_cons]
    split
    · exact ih _
    · rfl

/-- **A path ends in a wire**: an input of the generator that the rest of it leads to. -/
theorem follow_concat {p : List ℕ} {k : ℕ} : s.follow (p ++ [k]) = some a ↔
    ∃ b, s.follow p = some b ∧ ∃ h : k < b.arity, b.inputs ⟨k, h⟩ = a := by
  rw [follow_append, Option.bind_eq_some_iff]
  refine exists_congr fun b => and_congr_right fun _ => ?_
  rw [follow_cons]
  split
  · rename_i h
    simp [h]
  · rename_i h
    simp [h]

theorem mem_places_of_follow {p : List ℕ} (h : s.follow p = some a) : a ∈ s.places := by
  induction p generalizing s with
  | nil =>
    cases h
    exact self_mem_places _
  | cons k p ih =>
    rw [follow_cons] at h
    split at h
    · exact places_of_input _ (ih h)
    · cases h

/-- **The places are what paths lead to.** -/
theorem mem_places_iff_follow : a ∈ s.places ↔ ∃ p, s.follow p = some a := by
  constructor
  · intro h
    induction s with
    | node id ugen inputs ih =>
      rcases mem_places_iff.1 h with rfl | ⟨i, hi⟩
      · exact ⟨[], follow_nil _⟩
      · obtain ⟨p, hp⟩ := ih i hi
        exact ⟨i.val :: p, by rw [follow_cons, dif_pos i.isLt]; exact hp⟩
  · rintro ⟨p, hp⟩
    exact mem_places_of_follow hp

/-- **No path leads back** but the empty one. -/
theorem follow_eq_self {p : List ℕ} (h : s.follow p = some s) : p = [] := by
  cases p with
  | nil => rfl
  | cons k p =>
    rw [follow_cons] at h
    split at h
    · exact absurd (mem_places_of_follow h) (not_mem_places_input s _)
    · cases h

/-! ### Generators and wires -/

open Classical in
/-- **The generators of a signal**, each of them once. -/
noncomputable def nodes (s : Signal α) : Finset (Signal α) := s.places.toFinset

open Classical in
@[simp] theorem mem_nodes : a ∈ s.nodes ↔ a ∈ s.places := List.mem_toFinset

/-- An input of a generator. -/
abbrev Wire (α : Type) [Scalar α] := Σ b : Signal α, Fin b.arity

/-- What is wired to an input. -/
def Wire.target (w : Wire α) : Signal α := w.1.inputs w.2

/-- **The inputs of all generators of a signal.** -/
noncomputable def wires (s : Signal α) : Finset (Wire α) := s.nodes.sigma fun _ => Finset.univ

@[simp] theorem mem_wires {w : Wire α} : w ∈ s.wires ↔ w.1 ∈ s.places := by
  rw [wires, Finset.mem_sigma, mem_nodes, and_iff_left (Finset.mem_univ _)]

open Classical in
/-- **The inputs that a generator is wired to.** -/
noncomputable def wiresTo (s a : Signal α) : Finset (Wire α) := s.wires.filter (·.target = a)

open Classical in
@[simp] theorem mem_wiresTo {w : Wire α} : w ∈ s.wiresTo a ↔ w.1 ∈ s.places ∧ w.target = a := by
  rw [wiresTo, Finset.mem_filter, mem_wires]

theorem mem_places_of_mem_wiresTo {w : Wire α} (h : w ∈ s.wiresTo a) : a ∈ s.places := by
  obtain ⟨hw, rfl⟩ := mem_wiresTo.1 h
  exact places_trans hw (input_mem_places _)

/-- The signal itself is wired to none of its generators. -/
theorem wiresTo_self (s : Signal α) : s.wiresTo s = ∅ := by
  refine Finset.eq_empty_of_forall_notMem fun w hw => ?_
  obtain ⟨hw, htarget⟩ := mem_wiresTo.1 hw
  -- it would have fewer places than itself
  have hlt := length_places_input w.1 w.2
  rw [show w.1.inputs w.2 = s from htarget] at hlt
  exact absurd (length_places_le hw) hlt.not_ge

/-- **Two paths that end in different wires.** -/
def Meet (s : Signal α) (p q : List ℕ) (k l : ℕ) (a : Signal α) : Prop :=
  s.follow (p ++ [k]) = some a ∧ s.follow (q ++ [l]) = some a ∧ (s.follow p ≠ s.follow q ∨ k ≠ l)

theorem Meet.ne {p q : List ℕ} {k l : ℕ} (h : s.Meet p q k l a) : p ++ [k] ≠ q ++ [l] := by
  intro heq
  obtain ⟨rfl, hkl⟩ := List.append_inj' heq rfl
  exact h.2.2.elim (fun hne => hne rfl) fun hne => hne (List.singleton_injective hkl)

/-- **A generator is wired twice** just if two paths to it end in different wires. -/
theorem one_lt_card_wiresTo : 1 < (s.wiresTo a).card ↔ ∃ p q k l, s.Meet p q k l a := by
  rw [Finset.one_lt_card]
  constructor
  · rintro ⟨⟨b, k⟩, hb, ⟨c, l⟩, hc, hne⟩
    obtain ⟨hb, hbk⟩ := mem_wiresTo.1 hb
    obtain ⟨hc, hcl⟩ := mem_wiresTo.1 hc
    obtain ⟨p, hp⟩ := mem_places_iff_follow.1 hb
    obtain ⟨q, hq⟩ := mem_places_iff_follow.1 hc
    refine ⟨p, q, k, l, follow_concat.2 ⟨b, hp, k.isLt, hbk⟩,
      follow_concat.2 ⟨c, hq, l.isLt, hcl⟩, ?_⟩
    by_contra! h
    obtain ⟨hfollow, hkl⟩ := h
    rw [hp, hq] at hfollow
    obtain rfl := Option.some.inj hfollow
    exact hne (by rw [Fin.ext hkl])
  · rintro ⟨p, q, k, l, hp, hq, hne⟩
    obtain ⟨b, hb, hk, hbk⟩ := follow_concat.1 hp
    obtain ⟨c, hc, hl, hcl⟩ := follow_concat.1 hq
    refine ⟨⟨b, k, hk⟩, mem_wiresTo.2 ⟨mem_places_of_follow hb, hbk⟩, ⟨c, l, hl⟩,
      mem_wiresTo.2 ⟨mem_places_of_follow hc, hcl⟩, fun heq => ?_⟩
    cases heq
    exact hne.elim (fun h => h (hb.trans hc.symm)) fun h => h rfl

/-- **What has two paths** lies below a generator that is wired twice, or is one. -/
theorem exists_wired_twice {p q : List ℕ} (hp : s.follow p = some a) (hq : s.follow q = some a)
    (hne : p ≠ q) : ∃ b, 1 < (s.wiresTo b).card ∧ a ∈ b.places := by
  induction p using List.reverseRecOn generalizing q a with
  | nil =>
    cases hp
    exact absurd (follow_eq_self hq).symm hne
  | append_singleton p k ih =>
    rcases List.eq_nil_or_concat q with rfl | ⟨q, l, rfl⟩
    · cases hq
      exact absurd (follow_eq_self hp) hne
    · rw [List.concat_eq_append] at hq hne
      by_cases hlast : s.follow p = s.follow q ∧ k = l
      · -- the paths end in one wire, so they differ before it
        obtain ⟨hfollow, rfl⟩ := hlast
        obtain ⟨b, hb, hk, rfl⟩ := follow_concat.1 hp
        obtain ⟨c, hc, hbc⟩ := ih hb (hfollow ▸ hb) fun h => hne (by rw [h])
        exact ⟨c, hc, places_trans hbc (input_mem_places _)⟩
      · rw [not_and_or] at hlast
        exact ⟨a, one_lt_card_wiresTo.2 ⟨p, q, k, l, hp, hq, hlast⟩, self_mem_places a⟩

/-- **The paths are unique** just if no generator is wired twice. -/
theorem unique_paths_iff : (∀ a ∈ s.places, ∃! p, s.follow p = some a) ↔
    ∀ a, ¬ 1 < (s.wiresTo a).card := by
  constructor
  · intro h a ha
    obtain ⟨p, q, k, l, hmeet⟩ := one_lt_card_wiresTo.1 ha
    exact hmeet.ne ((h a (mem_places_of_follow hmeet.1)).unique hmeet.1 hmeet.2.1)
  · intro h a ha
    obtain ⟨p, hp⟩ := mem_places_iff_follow.1 ha
    refine ⟨p, hp, fun q hq => ?_⟩
    by_contra hne
    obtain ⟨b, hb, -⟩ := exists_wired_twice hq hp hne
    exact h b hb

end Signal

end Polyphony
