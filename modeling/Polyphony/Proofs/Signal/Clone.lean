import Polyphony.Proofs.Signal.Paths
import Polyphony.Signal.Clone
import Polyphony.Signal.Describe

/-!
# Clones are faithful

A clone is made in one pass through a graph. The pass remembers which copy belongs to which identity,
so that a generator that is met again is not copied a second time.

* `Signal.sample_congr`: **a signal hears no reels but those that it plays back.**
* `Signal.IsCopy`: a copy of a signal, by the copies that are known.
* `Copying.Extends`, `Copying.Good`: what a copy in progress has kept, and what holds in it.
* `Signal.good_copy`: **the step**: a signal is copied, and the copies that are known stay good.
* `Signal.Cloned`: what a clone is, and `Signal.cloned`: the clone of every graph is one.
-/

namespace Polyphony

variable {α : Type} [Scalar α]

/-! ### Reels that are played back -/

theorem Ugen.sample_congr {n : ℕ} {u : Ugen α n} {reels reels' : Reels α}
    (h : ∀ r, u.reel? = some r → reels'[r]? = reels[r]?) (inputs : Fin n → α → α) :
    u.sample reels' inputs = u.sample reels inputs := by
  cases u with
  | playback r =>
    funext t
    rw [Ugen.sample, Ugen.sample, h r rfl]
  | _ => rfl

namespace Signal

/-- **A signal plays back a reel** if one of its places does. -/
def PlaysBack (s : Signal α) (r : ℕ) : Prop := ∃ a ∈ s.places, a.ugen.reel? = some r

/-- **A signal hears no reels but those that it plays back.** -/
theorem sample_congr {s : Signal α} {reels reels' : Reels α}
    (h : ∀ r, s.PlaysBack r → reels'[r]? = reels[r]?) : s.sample reels' = s.sample reels := by
  induction s with
  | node id ugen inputs ih =>
    have hugen : ∀ r, ugen.reel? = some r → reels'[r]? = reels[r]? :=
      fun r hr => h r ⟨_, self_mem_places _, hr⟩
    have hinputs : ∀ i, (inputs i).sample reels' = (inputs i).sample reels := by
      intro i
      refine ih i fun r hr => ?_
      obtain ⟨a, ha, hreel⟩ := hr
      exact h r ⟨a, places_of_input (s := node id ugen inputs) i ha, hreel⟩
    funext t
    rw [sample, sample, funext hinputs, Ugen.sample_congr hugen]

end Signal

/-! ### Copies -/

/-- **The generator of a copy**: the same one, or one that plays back another reel with the same samples.
The first `old` reels are those of the graph. -/
inductive Ugen.IsCopy (old : ℕ) (reels : Reels α) : {n : ℕ} → Ugen α n → Ugen α n → Prop
  | same {n : ℕ} {u : Ugen α n} : u.reel? = none → IsCopy old reels u u
  | playback {r r' : ℕ} {x : Reel α} : reels[r]? = some x → reels[r']? = some x → old ≤ r' →
      IsCopy old reels (.playback r) (.playback r')

namespace Ugen.IsCopy

variable {old n : ℕ} {reels reels' : Reels α} {u u' : Ugen α n}

theorem mono (h : IsCopy old reels u u')
    (hreels : ∀ (r : ℕ) (x : Reel α), reels[r]? = some x → reels'[r]? = some x) :
    IsCopy old reels' u u' := by
  cases h with
  | same hnone => exact .same hnone
  | playback hr hr' hold => exact .playback (hreels _ _ hr) (hreels _ _ hr') hold

theorem sample_eq (h : IsCopy old reels u u') (inputs : Fin n → α → α) :
    u'.sample reels inputs = u.sample reels inputs := by
  cases h with
  | same hnone => rfl
  | playback hr hr' hold =>
    funext t
    rw [Ugen.sample, Ugen.sample, hr, hr']

/-- It plays back none of the reels of the graph. -/
theorem reel (h : IsCopy old reels u u') {r : ℕ} (hr : u'.reel? = some r) :
    old ≤ r ∧ r < reels.size := by
  cases h with
  | same hnone => rw [hnone] at hr; cases hr
  | playback hr₀ hr' hold =>
    cases hr
    exact ⟨hold, (Array.getElem?_eq_some_iff.1 hr').1⟩

end Ugen.IsCopy

/-- **A copy of a signal**: at every place the copy that is known for the identity. -/
inductive Signal.IsCopy (old : ℕ) (c : Copying α) : Signal α → Signal α → Prop
  | node {id id' n : ℕ} {u u' : Ugen α n} {inputs inputs' : Fin n → Signal α} :
      c.copies.lookup id = some (.node id' u' inputs') → u.IsCopy old c.reels u' →
      (∀ i, IsCopy old c (inputs i) (inputs' i)) →
      IsCopy old c (.node id u inputs) (.node id' u' inputs')

/-! ### What a copy in progress keeps -/

/-- **What a copy in progress has kept**: the reels and the copies of before. The new copies are those of
some identities. -/
structure Copying.Extends (new : Set ℕ) (c c' : Copying α) : Prop where
  next : c.next ≤ c'.next
  size : c.reels.size ≤ c'.reels.size
  reels : ∀ (r : ℕ) (x : Reel α), c.reels[r]? = some x → c'.reels[r]? = some x
  copies : ∀ i m, c.copies.lookup i = some m → c'.copies.lookup i = some m
  new : ∀ i m, c'.copies.lookup i = some m → c.copies.lookup i = some m ∨ i ∈ new

namespace Copying.Extends

variable {new new' : Set ℕ} {c c' c'' : Copying α}

theorem refl (c : Copying α) : c.Extends new c :=
  ⟨le_rfl, le_rfl, fun _ _ h => h, fun _ _ h => h, fun _ _ h => .inl h⟩

theorem trans (h : c.Extends new c') (h' : c'.Extends new c'') : c.Extends new c'' where
  next := h.next.trans h'.next
  size := h.size.trans h'.size
  reels := fun r x hr => h'.reels r x (h.reels r x hr)
  copies := fun i m hm => h'.copies i m (h.copies i m hm)
  new := by
    intro i m hm
    rcases h'.new i m hm with hm | hi
    · exact h.new i m hm
    · exact .inr hi

theorem mono (h : c.Extends new c') (hnew : new ⊆ new') : c.Extends new' c' where
  next := h.next
  size := h.size
  reels := h.reels
  copies := h.copies
  new := fun i m hm => (h.new i m hm).imp_right fun hi => hnew hi

/-- New reels are put behind the others. -/
theorem of_reels {reels : Reels α} (hsize : c.reels.size ≤ reels.size)
    (h : ∀ (r : ℕ) (x : Reel α), c.reels[r]? = some x → reels[r]? = some x) :
    c.Extends new { c with reels := reels } :=
  ⟨le_rfl, hsize, h, fun _ _ h => h, fun _ _ h => .inl h⟩

end Copying.Extends

/-- A copy that has been made is kept under the identity of what it is a copy of. -/
def Copying.keep (c : Copying α) (id : ℕ) (made : Signal α) : Copying α :=
  { c with next := c.next + 1, copies := (id, made) :: c.copies }

theorem Copying.lookup_keep (c : Copying α) (id : ℕ) (made : Signal α) (i : ℕ) :
    (c.keep id made).copies.lookup i = if i = id then some made else c.copies.lookup i := by
  rw [keep, List.lookup_cons]
  by_cases h : i = id
  · rw [if_pos h, h, beq_self_eq_true]
  · rw [if_neg h, beq_false_of_ne h]

theorem Copying.extends_keep {c : Copying α} {id : ℕ} (h : c.copies.lookup id = none)
    (made : Signal α) : c.Extends {id} (c.keep id made) where
  next := Nat.le_succ _
  size := le_rfl
  reels := fun _ _ hr => hr
  copies := by
    intro i m hm
    have hne : i ≠ id := by
      rintro rfl
      rw [h] at hm
      cases hm
    rw [lookup_keep, if_neg hne]
    exact hm
  new := by
    intro i m hm
    by_cases hi : i = id
    · exact .inr hi
    · rw [lookup_keep, if_neg hi] at hm
      exact .inl hm

/-- Copies stay copies. -/
theorem Signal.IsCopy.mono {old : ℕ} {new : Set ℕ} {c c' : Copying α} {a m : Signal α}
    (h : IsCopy old c a m) (hc : c.Extends new c') : IsCopy old c' a m := by
  induction h with
  | node hlookup hugen _ ih =>
    exact .node (hc.copies _ _ hlookup) (hugen.mono hc.reels) ih

/-- **What holds in a copy in progress** of a graph: the copies that are known are copies, and they have
new identities, different ones for different identities. -/
structure Copying.Good (root : Signal α) (start c : Copying α) : Prop where
  since : start.Extends Set.univ c
  copies : ∀ a ∈ root.places, ∀ m, c.copies.lookup a.id = some m →
    a.IsCopy start.reels.size c m
  ids : ∀ i m, c.copies.lookup i = some m → start.next ≤ m.id ∧ m.id < c.next
  inj : ∀ i j m m', c.copies.lookup i = some m → c.copies.lookup j = some m' → m.id = m'.id → i = j

namespace Copying.Good

variable {root a : Signal α} {start c c' : Copying α}

theorem start_nil (h : start.copies = []) (root : Signal α) : Good root start start where
  since := .refl start
  copies := by simp [h]
  ids := by simp [h]
  inj := by simp [h]

theorem reels {reels : Reels α} (h : Good root start c) (hc : c.Extends ∅ { c with reels := reels }) :
    Good root start { c with reels := reels } where
  since := h.since.trans (hc.mono (Set.empty_subset _))
  copies := fun a ha m hm => (h.copies a ha m hm).mono hc
  ids := h.ids
  inj := h.inj

/-- **A copy that is kept** keeps the copy in progress good. -/
theorem keep (h : Good root start c) (hroot : Coherent root) (ha : a ∈ root.places)
    (hnew : c.copies.lookup a.id = none) {made : Signal α} (hid : made.id = c.next)
    (hmade : a.IsCopy start.reels.size (c.keep a.id made) made) :
    Good root start (c.keep a.id made) where
  since := h.since.trans ((Copying.extends_keep hnew made).mono (Set.subset_univ _))
  copies := by
    intro b hb m hm
    by_cases hba : b.id = a.id
    · rw [Copying.lookup_keep, if_pos hba] at hm
      cases hm
      rwa [hroot b hb a ha hba]
    · rw [Copying.lookup_keep, if_neg hba] at hm
      exact (h.copies b hb m hm).mono (Copying.extends_keep hnew made)
  ids := by
    intro i m hm
    have hnext : start.next ≤ c.next := h.since.next
    rw [Copying.lookup_keep] at hm
    show start.next ≤ m.id ∧ m.id < c.next + 1
    split at hm
    · cases hm
      omega
    · have := h.ids i m hm
      omega
  inj := by
    intro i j m m' hi hj heq
    rw [Copying.lookup_keep] at hi hj
    -- the new copy has an identity above those of the others
    split at hi <;> split at hj
    · rw [‹i = a.id›, ‹j = a.id›]
    · cases hi
      have := h.ids j m' hj
      omega
    · cases hj
      have := h.ids i m hi
      omega
    · exact h.inj i j m m' hi hj heq

end Copying.Good

/-- Inputs are copied one after the other: what each step keeps, and what it yields as long as the next
steps keep that. -/
theorem run_ofFnM {σ β : Type} {n : ℕ} {f : Fin n → StateM σ β} {P : σ → Prop} {R : σ → σ → Prop}
    {Q : Fin n → β → σ → Prop} (hrefl : ∀ c, R c c) (htrans : ∀ a b c, R a b → R b c → R a c)
    (hkeep : ∀ i b c c', R c c' → Q i b c → Q i b c')
    (h : ∀ i c, P c → P ((f i).run c).2 ∧ R c ((f i).run c).2 ∧
      Q i ((f i).run c).1 ((f i).run c).2) (c : σ) (hc : P c) :
    P ((Vector.ofFnM f).run c).2 ∧ R c ((Vector.ofFnM f).run c).2 ∧
      ∀ i, Q i (((Vector.ofFnM f).run c).1.get i) ((Vector.ofFnM f).run c).2 := by
  induction n generalizing c with
  | zero =>
    rw [Vector.ofFnM_zero]
    exact ⟨hc, hrefl c, fun i => i.elim0⟩
  | succ n ih =>
    obtain ⟨hP, hR, hQ⟩ := ih (fun i b c c' => hkeep i.castSucc b c c') (fun i => h i.castSucc) c hc
    obtain ⟨hP', hR', hQ'⟩ := h (Fin.last n) _ hP
    rw [Vector.ofFnM_succ]
    refine ⟨hP', htrans _ _ _ hR hR', fun i => ?_⟩
    cases i using Fin.lastCases with
    | last =>
      show Q (Fin.last n) ((Vector.push _ _)[n]) _
      rw [Vector.getElem_push_last]
      exact hQ'
    | cast i =>
      show Q i.castSucc ((Vector.push _ _)[i.val]) _
      rw [Vector.getElem_push_lt i.isLt]
      exact hkeep _ _ _ _ hR' (hQ i)

/-- **A generator is copied**: one that plays back a reel gets a new reel with the same samples. -/
theorem Ugen.run_copy {old n : ℕ} (u : Ugen α n) (c : Copying α)
    (hreel : ∀ r, u.reel? = some r → r < c.reels.size) (hold : old ≤ c.reels.size) :
    ∃ u' reels, u.copy.run c = (u', { c with reels := reels }) ∧ u.IsCopy old reels u' ∧
      c.reels.size ≤ reels.size ∧ ∀ (r : ℕ) (x : Reel α), c.reels[r]? = some x → reels[r]? = some x := by
  by_cases h : ∃ r, u.reel? = some r
  · obtain ⟨r, hr⟩ := h
    cases u <;> cases hr
    obtain ⟨x, hx⟩ : ∃ x, c.reels[r]? = some x := ⟨_, Array.getElem?_eq_getElem (hreel r rfl)⟩
    have hkept : ∀ (r : ℕ) (y : Reel α), c.reels[r]? = some y → (c.reels.push x)[r]? = some y := by
      intro r y hy
      obtain ⟨hlt, rfl⟩ := Array.getElem?_eq_some_iff.1 hy
      exact Array.getElem?_push_lt hlt
    refine ⟨.playback c.reels.size, c.reels.push x, ?_, ?_, ?_, hkept⟩
    · simp only [Ugen.copy, StateT.run_bind, StateT.run_get, pure_bind, hx]
      rfl
    · exact .playback (hkept r x hx) (by simp) hold
    · simp
  · have hnone : u.reel? = none := by
      rw [Option.eq_none_iff_forall_ne_some]
      exact fun r hr => h ⟨r, hr⟩
    refine ⟨u, c.reels, ?_, .same hnone, le_rfl, fun _ _ h => h⟩
    cases u <;> first | rfl | cases hnone

namespace Signal

variable {root a m : Signal α} {start c : Copying α}

theorem run_copy_of_known (h : c.copies.lookup a.id = some m) : a.copy.run c = (m, c) := by
  cases a with
  | node id ugen inputs =>
    have hknown : c.copies.lookup id = some m := h
    simp only [copy, StateT.run_bind, StateT.run_get, pure_bind, hknown]
    rfl

/-- **A signal that has not been copied**: its inputs are, then its generator, and the copy has the next
free identity. -/
theorem run_copy_of_new {id n : ℕ} {ugen ugen' : Ugen α n} {inputs : Fin n → Signal α}
    {wired : Vector (Signal α) n} {c₁ c₂ : Copying α} (h : c.copies.lookup id = none)
    (hwired : (Vector.ofFnM fun i => (inputs i).copy).run c = (wired, c₁))
    (hugen : ugen.copy.run c₁ = (ugen', c₂)) :
    (node id ugen inputs).copy.run c =
      (node c₂.next ugen' wired.get, c₂.keep id (node c₂.next ugen' wired.get)) := by
  simp only [copy, StateT.run_bind, StateT.run_get, pure_bind, h]
  rw [hwired]
  show StateT.run (ugen.copy >>= fun _ => _) c₁ = _
  rw [StateT.run_bind, hugen]
  rfl

/-- The identities of the places of a signal. -/
def keys (a : Signal α) : Set ℕ := {i | ∃ b ∈ a.places, b.id = i}

/-- **The copy of a signal.** Whatever holds in a copy in progress is kept, and what is yielded is a copy
of the signal. -/
theorem good_copy (hroot : Coherent root) (hreels : ∀ r, root.PlaysBack r → r < start.reels.size)
    (ha : a ∈ root.places) (c : Copying α) (hc : Copying.Good root start c) :
    Copying.Good root start (a.copy.run c).2 ∧ c.Extends a.keys (a.copy.run c).2 ∧
      a.IsCopy start.reels.size (a.copy.run c).2 (a.copy.run c).1 := by
  induction a generalizing c with
  | node id ugen inputs ih =>
    set a := node id ugen inputs
    have hbelow (i) : inputs i ∈ root.places := places_trans ha (input_mem_places (s := a) i)
    have hkeys (i) : (inputs i).keys ⊆ a.keys :=
      fun j ⟨b, hb, hj⟩ => ⟨b, places_of_input (s := a) i hb, hj⟩
    cases hknown : c.copies.lookup id with
    | some m =>
      rw [run_copy_of_known (a := a) hknown]
      exact ⟨hc, .refl c, hc.copies a ha m hknown⟩
    | none =>
      -- first the inputs: their copies are kept under the identities below
      obtain ⟨hgood, hext, hinputs⟩ := run_ofFnM (f := fun i => (inputs i).copy)
        (P := Copying.Good root start) (R := Copying.Extends {j | ∃ i, j ∈ (inputs i).keys})
        (Q := fun i m c => (inputs i).IsCopy start.reels.size c m)
        (fun c => .refl c) (fun _ _ _ h h' => h.trans h') (fun _ _ _ _ h h' => h'.mono h)
        (fun i c hc => (ih i (hbelow i) c hc).imp_right fun h =>
          ⟨h.1.mono fun j hj => ⟨i, hj⟩, h.2⟩) c hc
      set wired := (Vector.ofFnM fun i => (inputs i).copy).run c
      -- then the generator, with a reel of its own
      obtain ⟨ugen', reels, hugen, hcopy, hsize, hkept⟩ := ugen.run_copy wired.2
        (fun r hr => (hreels r ⟨a, ha, hr⟩).trans_le hgood.since.size) hgood.since.size
      have hreels' : Copying.Extends ∅ wired.2 { wired.2 with reels := reels } := .of_reels hsize hkept
      -- no input has the identity of the signal, so there is still no copy under it
      have hnew : wired.2.copies.lookup id = none := by
        by_contra hsome
        obtain ⟨m, hm⟩ := Option.ne_none_iff_exists'.1 hsome
        obtain hm | ⟨i, b, hb, hid⟩ := hext.new id m hm
        · rw [hknown] at hm
          cases hm
        · rw [hroot b (places_trans (hbelow i) hb) a ha hid] at hb
          exact not_mem_places_input a i hb
      set made := node wired.2.next ugen' wired.1.get
      have hrun : a.copy.run c = (made, Copying.keep { wired.2 with reels := reels } id made) :=
        run_copy_of_new hknown rfl hugen
      have hkeep := Copying.extends_keep (c := { wired.2 with reels := reels }) hnew made
      have hmade : a.IsCopy start.reels.size (Copying.keep { wired.2 with reels := reels } id made) made :=
        .node (by rw [Copying.lookup_keep, if_pos rfl]) hcopy
          fun i => ((hinputs i).mono hreels').mono hkeep
      rw [hrun]
      refine ⟨(hgood.reels hreels').keep hroot ha hnew rfl hmade, ?_, hmade⟩
      have hown : {id} ⊆ a.keys := Set.singleton_subset_iff.2 ⟨a, self_mem_places a, rfl⟩
      have hinto : {j | ∃ i, j ∈ (inputs i).keys} ⊆ a.keys := fun j ⟨i, hj⟩ => hkeys i hj
      exact ((hext.mono hinto).trans (hreels'.mono (Set.empty_subset _))).trans (hkeep.mono hown)

/-! ### Clones -/

namespace IsCopy

variable {old : ℕ} {s m' : Signal α}

theorem lookup (h : IsCopy old c a m) : c.copies.lookup a.id = some m := by
  cases h with
  | node hlookup _ _ => exact hlookup

theorem sample_eq (h : IsCopy old c a m) : m.sample c.reels = a.sample c.reels := by
  induction h with
  | node _ hugen _ ih =>
    funext t
    rw [sample, sample, funext ih, hugen.sample_eq]

/-- **Along every path** there is the copy of what is there in the graph. -/
theorem follow (h : IsCopy old c a m) (p : List ℕ) :
    Option.Rel (IsCopy old c) (a.follow p) (m.follow p) := by
  induction p generalizing a m with
  | nil => exact .some h
  | cons k p ih =>
    cases h with
    | @node id id' n u u' inputs inputs' _ _ hinputs =>
      show Option.Rel _ (if h : k < n then (inputs ⟨k, h⟩).follow p else none)
        (if h : k < n then (inputs' ⟨k, h⟩).follow p else none)
      split
      · exact ih (hinputs _)
      · exact .none

theorem exists_of_mem_places (h : IsCopy old c a m) {n : Signal α} (hn : n ∈ m.places) :
    ∃ b ∈ a.places, IsCopy old c b n := by
  obtain ⟨p, hp⟩ := mem_places_iff_follow.1 hn
  have hrel := h.follow p
  generalize hb : a.follow p = b at hrel
  rw [hp] at hrel
  cases hrel with
  | some hcopy => exact ⟨_, mem_places_of_follow hb, hcopy⟩

/-- Of two copies there is one identity just if there is one of what they are copies of; and then they
are one. -/
theorem id_eq_iff (hc : Copying.Good root start c) {b n : Signal α} (h : IsCopy old c a m)
    (h' : IsCopy old c b n) : m.id = n.id ↔ a.id = b.id := by
  constructor
  · exact hc.inj _ _ _ _ h.lookup h'.lookup
  · intro hid
    have hlookup := h.lookup
    rw [hid, h'.lookup] at hlookup
    cases hlookup
    rfl

theorem eq_of_id_eq (hc : Copying.Good root start c) {b n : Signal α} (h : IsCopy old c a m)
    (h' : IsCopy old c b n) (hid : m.id = n.id) : m = n := by
  have hlookup := h.lookup
  rw [(h.id_eq_iff hc h').1 hid, h'.lookup] at hlookup
  exact (Option.some.inj hlookup).symm

end IsCopy

/-- **Two graphs share alike** if the same paths lead somewhere, and two paths meet in one of them just
if they meet in the other. -/
structure SharesAlike (s s' : Signal α) : Prop where
  paths : ∀ p, (s'.follow p).isSome = (s.follow p).isSome
  meet : ∀ p q, (s'.follow p).map id = (s'.follow q).map id ↔ (s.follow p).map id = (s.follow q).map id

/-- **What a clone is**: it has the samples and the sharing of the signal, new identities and new reels,
and the reels of before are as they were. -/
structure Cloned (s : Signal α) (reels : Reels α) (next : ℕ) (copy : Signal α) (reels' : Reels α)
    (next' : ℕ) : Prop where
  sample : copy.sample reels' = s.sample reels
  shares : s.SharesAlike copy
  coherent : Coherent copy
  ids : ∀ a ∈ copy.places, next ≤ a.id ∧ a.id < next'
  played : ∀ r, copy.PlaysBack r → reels.size ≤ r ∧ r < reels'.size
  size : reels.size ≤ reels'.size
  kept : ∀ r < reels.size, reels'[r]? = reels[r]?

/-- **Every graph is cloned.** -/
theorem cloned {s : Signal α} {reels : Reels α} (hs : Coherent s)
    (hreels : ∀ r, s.PlaysBack r → r < reels.size) (next : ℕ) :
    Cloned s reels next (s.clone reels next).1 (s.clone reels next).2.1 (s.clone reels next).2.2 := by
  set start : Copying α := ⟨reels, next, []⟩
  obtain ⟨hgood, -, hcopy⟩ := good_copy hs hreels (self_mem_places s) start (.start_nil rfl s)
  have hclone : s.clone reels next =
      ((s.copy.run start).1, (s.copy.run start).2.reels, (s.copy.run start).2.next) := rfl
  rw [hclone]
  generalize (s.copy.run start).1 = copy at hcopy
  generalize (s.copy.run start).2 = c at hgood hcopy
  have hkept : ∀ r < reels.size, c.reels[r]? = reels[r]? := by
    intro r hr
    rw [Array.getElem?_eq_getElem hr]
    exact hgood.since.reels r _ (Array.getElem?_eq_getElem hr)
  refine ⟨?_, ⟨fun p => ?_, fun p q => ?_⟩, ?_, ?_, ?_, hgood.since.size, hkept⟩
  · rw [hcopy.sample_eq]
    exact sample_congr fun r hr => hkept r (hreels r hr)
  · have hp := hcopy.follow p
    generalize s.follow p = x, copy.follow p = x' at hp
    cases hp <;> rfl
  · have hp := hcopy.follow p
    have hq := hcopy.follow q
    generalize s.follow p = x, copy.follow p = x' at hp
    generalize s.follow q = y, copy.follow q = y' at hq
    cases hp with
    | none => cases hq <;> simp
    | some hp =>
      cases hq with
      | none => simp
      | some hq => simp [hp.id_eq_iff hgood hq]
  · intro a ha b hb hid
    obtain ⟨a₀, -, ha₀⟩ := hcopy.exists_of_mem_places ha
    obtain ⟨b₀, -, hb₀⟩ := hcopy.exists_of_mem_places hb
    exact ha₀.eq_of_id_eq hgood hb₀ hid
  · intro a ha
    obtain ⟨a₀, -, ha₀⟩ := hcopy.exists_of_mem_places ha
    exact hgood.ids _ _ ha₀.lookup
  · rintro r ⟨a, ha, hr⟩
    obtain ⟨a₀, -, ha₀⟩ := hcopy.exists_of_mem_places ha
    cases ha₀ with
    | node _ hugen _ => exact hugen.reel hr

end Signal

end Polyphony
