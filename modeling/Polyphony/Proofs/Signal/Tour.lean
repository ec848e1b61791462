import Mathlib.Data.Multiset.Bind
import Polyphony.Proofs.Signal.Paths
import Polyphony.Signal.Outline

/-!
# Tours

A tour goes through signals along their inputs and remembers the identities it has met. It goes on from
a generator that it meets for the first time, and stops at one that it has met before. An outline and
the walk for shared generators are both tours, in different orders; what they find is the same.

* `Signal.Tour`: **what a tour has found**, with one rule for every step of it.
* `Signal.tour_outlineFrom`, `Signal.tour_walk`: the outline and the walk are tours.
* `Signal.Tour.fresh_eq`: a tour from a coherent signal meets every generator for the first time once.
* `Signal.Tour.count_again`: it meets each of them again **once for every further wire to it**.
-/

namespace Polyphony

variable {α : Type} [Scalar α]

namespace Signal

/-- What is wired to the inputs, as often as it is. -/
def wired (s : Signal α) : Multiset (Signal α) := s.inputList

theorem mem_wired {s a : Signal α} : a ∈ s.wired ↔ ∃ i, s.inputs i = a := by
  rw [wired, inputList, Multiset.mem_coe, List.mem_ofFn]

/-- **What a tour has found** that starts at some signals, with the identities it has met before and
after it: the generators it met for the first time, and those it met again. -/
structure Tour (starts : Multiset (Signal α)) (before after : List ℕ)
    (fresh again : Multiset (Signal α)) : Prop where
  /-- It follows the inputs of all generators that are new to it, and no others. -/
  edges : fresh + again = starts + fresh.bind wired
  reached : ∀ a ∈ fresh, ∃ s ∈ starts, a ∈ s.places
  known : ∀ a ∈ again, a.id ∈ after
  met : ∀ i, i ∈ after ↔ i ∈ before ∨ ∃ a ∈ fresh, a.id = i
  new : ∀ a ∈ fresh, a.id ∉ before
  nodup : (fresh.map id).Nodup

variable {s : Signal α} {starts starts' fresh fresh' again again' : Multiset (Signal α)}
variable {before between after : List ℕ}

/-! ### One rule for every step -/

theorem tour_nil (met : List ℕ) : Tour (α := α) 0 met met 0 0 where
  edges := rfl
  reached := by simp
  known := by simp
  met := by simp
  new := by simp
  nodup := Multiset.nodup_zero

/-- It **stops** at a generator that it has met before. -/
theorem tour_stop (h : s.id ∈ before) : Tour {s} before before 0 {s} where
  edges := by simp
  reached := by simp
  known := by simpa using h
  met := by simp
  new := by simp
  nodup := Multiset.nodup_zero

/-- It **goes on** from one that is new to it. -/
theorem Tour.goOn (h : Tour s.wired (s.id :: before) after fresh again) (hs : s.id ∉ before) :
    Tour {s} before after (s ::ₘ fresh) again where
  edges := by rw [Multiset.cons_add, h.edges, Multiset.cons_bind, Multiset.singleton_add]
  reached := by
    intro a ha
    refine ⟨s, Multiset.mem_singleton_self s, ?_⟩
    rcases Multiset.mem_cons.1 ha with rfl | ha
    · exact self_mem_places a
    · obtain ⟨b, hb, hab⟩ := h.reached a ha
      obtain ⟨i, rfl⟩ := mem_wired.1 hb
      exact places_of_input i hab
  known := h.known
  met := by
    intro i
    rw [h.met i, List.mem_cons]
    simp only [Multiset.mem_cons, exists_eq_or_imp]
    rw [or_comm (a := i = s.id), or_assoc, eq_comm]
  new := by
    intro a ha
    rcases Multiset.mem_cons.1 ha with rfl | ha
    · exact hs
    · exact fun hmem => h.new a ha (List.mem_cons_of_mem _ hmem)
  nodup := by
    rw [Multiset.map_cons, Multiset.nodup_cons]
    refine ⟨fun hmem => ?_, h.nodup⟩
    obtain ⟨a, ha, hid⟩ := Multiset.mem_map.1 hmem
    exact h.new a ha (by rw [hid]; exact List.mem_cons_self)

/-- **One tour after another.** -/
theorem Tour.append (h : Tour starts before between fresh again)
    (h' : Tour starts' between after fresh' again') :
    Tour (starts + starts') before after (fresh + fresh') (again + again') where
  edges := by
    rw [Multiset.add_bind, add_add_add_comm, h.edges, h'.edges, add_add_add_comm]
  reached := by
    intro a ha
    rcases Multiset.mem_add.1 ha with ha | ha
    · obtain ⟨b, hb, hab⟩ := h.reached a ha
      exact ⟨b, Multiset.mem_add.2 (.inl hb), hab⟩
    · obtain ⟨b, hb, hab⟩ := h'.reached a ha
      exact ⟨b, Multiset.mem_add.2 (.inr hb), hab⟩
  known := by
    intro a ha
    rcases Multiset.mem_add.1 ha with ha | ha
    · exact (h'.met a.id).2 (.inl (h.known a ha))
    · exact h'.known a ha
  met := by
    intro i
    rw [h'.met i, h.met i, or_assoc]
    simp only [Multiset.mem_add, or_and_right, exists_or]
  new := by
    intro a ha
    rcases Multiset.mem_add.1 ha with ha | ha
    · exact h.new a ha
    · exact fun hmem => h'.new a ha ((h.met a.id).2 (.inl hmem))
  nodup := by
    rw [Multiset.map_add, Multiset.nodup_add]
    refine ⟨h.nodup, h'.nodup, Multiset.disjoint_left.2 ?_⟩
    intro i hi hi'
    obtain ⟨a, ha, rfl⟩ := Multiset.mem_map.1 hi
    obtain ⟨b, hb, hid⟩ := Multiset.mem_map.1 hi'
    -- what the first tour meets is not new to the second
    exact h'.new b hb (by rw [hid]; exact (h.met a.id).2 (.inr ⟨a, ha, rfl⟩))

/-! ### What a tour from a coherent signal finds -/

variable {a : Signal α}

/-- Whatever a tour gets to, it has met for the first time. -/
theorem Tour.mem_fresh (h : Tour {s} [] after fresh again) (hs : Coherent s) (ha : a ∈ s.places)
    (hmem : a ∈ fresh + again) : a ∈ fresh := by
  rcases Multiset.mem_add.1 hmem with hmem | hmem
  · exact hmem
  · obtain hmem | ⟨b, hb, hid⟩ := (h.met a.id).1 (h.known a hmem)
    · cases hmem
    · obtain ⟨s', hs', hbs⟩ := h.reached b hb
      obtain rfl := Multiset.mem_singleton.1 hs'
      rwa [hs a ha b hbs hid.symm]

/-- It gets to all places below a generator that it gets to. -/
theorem Tour.places_fresh (h : Tour {s} [] after fresh again) (hs : Coherent s) {b : Signal α}
    (hb : b ∈ fresh) (hbs : b ∈ s.places) (ha : a ∈ b.places) : a ∈ fresh := by
  induction b with
  | node id ugen inputs ih =>
    rcases mem_places_iff.1 ha with rfl | ⟨i, hi⟩
    · exact hb
    · have hinput := places_trans hbs (input_mem_places (s := node id ugen inputs) i)
      refine ih i (h.mem_fresh hs hinput ?_) hinput hi
      rw [h.edges, Multiset.mem_add, Multiset.mem_bind]
      exact .inr ⟨_, hb, mem_wired.2 ⟨i, rfl⟩⟩

/-- **Every generator of a coherent signal is met for the first time**, once. -/
theorem Tour.fresh_eq (h : Tour {s} [] after fresh again) (hs : Coherent s) :
    fresh = s.nodes.val := by
  refine (Multiset.Nodup.ext (Multiset.Nodup.of_map _ h.nodup) s.nodes.nodup).2 fun a => ?_
  rw [Finset.mem_val, mem_nodes]
  constructor
  · intro ha
    obtain ⟨s', hs', has⟩ := h.reached a ha
    rwa [Multiset.mem_singleton.1 hs'] at has
  · have hstart : s ∈ fresh := by
      refine h.mem_fresh hs (self_mem_places s) ?_
      rw [h.edges]
      exact Multiset.mem_add.2 (.inl (Multiset.mem_singleton_self s))
    exact h.places_fresh hs hstart (self_mem_places s)

/-- The ends of all wires are what is wired to the generators. -/
theorem map_target_wires (s : Signal α) : s.wires.val.map Wire.target = s.nodes.val.bind wired := by
  have hwires : s.wires.val =
      s.nodes.val.bind fun b => (Finset.univ : Finset (Fin b.arity)).val.map (Sigma.mk b) := rfl
  rw [hwires, Multiset.map_bind]
  refine Multiset.bind_congr fun b _ => ?_
  rw [Multiset.map_map, Fin.univ_val_map, wired, inputList]
  rfl

open Classical in
/-- **A generator is met again once for every further wire to it.** -/
theorem Tour.count_again (h : Tour {s} [] after fresh again) (hs : Coherent s) (a : Signal α) :
    again.count a = (s.wiresTo a).card - 1 := by
  have hwires : (s.wiresTo a).card = (s.nodes.val.bind wired).count a := by
    rw [← map_target_wires, Multiset.count_map, wiresTo, Finset.card_def, Finset.filter_val]
    simp only [eq_comm]
  have hcount : fresh.count a + again.count a =
      Multiset.count a {s} + (s.wiresTo a).card := by
    rw [← Multiset.count_add, h.edges, Multiset.count_add, h.fresh_eq hs, hwires]
  rw [h.fresh_eq hs] at hcount
  by_cases ha : a ∈ s.places
  · have hone : s.nodes.val.count a = 1 :=
      Multiset.count_eq_one_of_mem s.nodes.nodup (mem_nodes.2 ha)
    by_cases hstart : a = s
    · -- the tour starts here, and no wire leads back
      subst hstart
      rw [wiresTo_self, Finset.card_empty, Multiset.count_singleton_self] at hcount
      rw [wiresTo_self, Finset.card_empty]
      omega
    · rw [Multiset.count_singleton, if_neg hstart] at hcount
      omega
  · have hnone : s.wiresTo a = ∅ :=
      Finset.eq_empty_of_forall_notMem fun w hw => ha (mem_places_of_mem_wiresTo hw)
    have hne : a ≠ s := fun h => ha (h ▸ self_mem_places a)
    rw [hnone, Finset.card_empty, Multiset.count_singleton, if_neg hne] at hcount
    rw [hnone, Finset.card_empty]
    omega

/-- What is met again is wired twice. -/
theorem Tour.mem_again_iff (h : Tour {s} [] after fresh again) (hs : Coherent s) :
    a ∈ again ↔ 1 < (s.wiresTo a).card := by
  classical
  rw [← Multiset.count_pos, h.count_again hs a]
  omega

/-! ### Outlines -/

/-- **What a walk keeps of a tour**: of the generators met again each identity, once. -/
structure Walk.Records (w w' : Walk α) (again : Multiset (Signal α)) : Prop where
  old : ∀ a ∈ w'.again, a ∈ w.again ∨ a ∈ again
  kept : ∀ a ∈ w.again, a ∈ w'.again
  found : ∀ a ∈ again, ∃ b ∈ w'.again, b.id = a.id
  nodup : (w.again.map id).Nodup → (w'.again.map id).Nodup

theorem Walk.Records.append {w w' w'' : Walk α} (h : Walk.Records w w' again)
    (h' : Walk.Records w' w'' again') : Walk.Records w w'' (again + again') where
  old := by
    intro a ha
    rw [Multiset.mem_add]
    rcases h'.old a ha with ha | ha
    · exact (h.old a ha).imp_right .inl
    · exact .inr (.inr ha)
  kept := fun a ha => h'.kept a (h.kept a ha)
  found := by
    intro a ha
    rcases Multiset.mem_add.1 ha with ha | ha
    · obtain ⟨b, hb, hid⟩ := h.found a ha
      exact ⟨b, h'.kept b hb, hid⟩
    · exact h'.found a ha
  nodup := fun hw => h'.nodup (h.nodup hw)

theorem walk_eq (s : Signal α) (w : Walk α) :
    s.walk w =
      if s.id ∈ w.met then
        if w.again.any (·.id == s.id) then w else { w with again := w.again ++ [s] }
      else Fin.foldr s.arity (fun i w => (s.inputs i).walk w) { w with met := s.id :: w.met } := by
  cases s with
  | node id ugen inputs => rw [walk]; rfl

/-- The walk **stops** at a generator that it has met before. -/
theorem records_stop {w : Walk α} (h : s.id ∈ w.met) :
    (s.walk w).met = w.met ∧ Walk.Records w (s.walk w) {s} := by
  rw [walk_eq, if_pos h]
  split
  · rename_i hany
    rw [List.any_eq_true] at hany
    obtain ⟨b, hb, hid⟩ := hany
    refine ⟨rfl, fun a ha => .inl ha, fun a ha => ha, ?_, fun hw => hw⟩
    intro a ha
    rw [Multiset.mem_singleton.1 ha]
    exact ⟨b, hb, by simpa using hid⟩
  · rename_i hany
    refine ⟨rfl, ?_, fun a ha => List.mem_append_left _ ha, ?_, ?_⟩
    · intro a ha
      rw [Multiset.mem_singleton]
      simpa using ha
    · intro a ha
      exact ⟨s, by simp, by rw [Multiset.mem_singleton.1 ha]⟩
    · intro hw
      have hnew : s.id ∉ w.again.map id := by
        intro hmem
        obtain ⟨b, hb, hid⟩ := List.mem_map.1 hmem
        exact hany (List.any_eq_true.2 ⟨b, hb, by simpa using hid⟩)
      rw [List.map_append, List.map_singleton, ← List.concat_eq_append]
      exact hw.concat hnew

/-- The walk through inputs, from the last to the first, if the walk through each of them is a tour. -/
theorem tour_foldr_walk {n : ℕ} {inputs : Fin n → Signal α}
    (h : ∀ i w, ∃ fresh again, Tour {inputs i} w.met ((inputs i).walk w).met fresh again ∧
      Walk.Records w ((inputs i).walk w) again)
    (l : List (Fin n)) (w : Walk α) : ∃ fresh again,
      Tour (l.map inputs) w.met (l.foldr (fun i w => (inputs i).walk w) w).met fresh again ∧
        Walk.Records w (l.foldr (fun i w => (inputs i).walk w) w) again := by
  induction l with
  | nil =>
    refine ⟨0, 0, tour_nil _, fun a ha => .inl ha, fun a ha => ha, ?_, fun hw => hw⟩
    intro a ha
    exact absurd ha (Multiset.notMem_zero a)
  | cons i l ih =>
    obtain ⟨fresh, again, htour, hrecords⟩ := ih
    obtain ⟨fresh', again', htour', hrecords'⟩ := h i (l.foldr (fun i w => (inputs i).walk w) w)
    refine ⟨fresh + fresh', again + again', ?_, hrecords.append hrecords'⟩
    rw [List.map_cons, ← Multiset.cons_coe, ← Multiset.singleton_add, add_comm]
    exact htour.append htour'

/-- **The walk for shared generators is a tour**, and records what it meets again. -/
theorem tour_walk (s : Signal α) (w : Walk α) : ∃ fresh again,
    Tour {s} w.met (s.walk w).met fresh again ∧ Walk.Records w (s.walk w) again := by
  induction s generalizing w with
  | node id ugen inputs ih =>
    by_cases h : id ∈ w.met
    · obtain ⟨hmet, hrecords⟩ := records_stop (s := node id ugen inputs) h
      refine ⟨0, {node id ugen inputs}, ?_, hrecords⟩
      rw [hmet]
      exact tour_stop h
    · obtain ⟨fresh, again, htour, hrecords⟩ :=
        tour_foldr_walk ih (List.finRange _) { w with met := id :: w.met }
      rw [← List.ofFn_eq_map] at htour
      rw [walk, if_neg h, Fin.foldr_eq_finRange_foldr]
      refine ⟨_, again, Tour.goOn (s := node id ugen inputs) htour h, ?_⟩
      exact ⟨hrecords.old, hrecords.kept, hrecords.found, hrecords.nodup⟩

end Signal

end Polyphony
