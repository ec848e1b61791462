import Polyphony.Proofs.Signal.Clone
import Polyphony.Proofs.StoredSpectra

/-!
# Clones are isolated

Reels are the one thing in a studio that signals share and that can change. A filter changes the reel
it is called for and no other, so it is heard only by signals that play that one back. A clone plays
back none of the reels of before.

* `Studio.filterAll`: filters called one after the other, whether they fail or not.
* `Studio.getElem?_filterAll`: **what such calls leave alone.**
* `Signal.sample_filterAll`: signals that play back none of the reels sound as before.
* `Signal.ClonedIn`: what a clone is in a studio, and `Session.clone_isolated`: **every graph of a studio
  is cloned so.**
-/

namespace Polyphony

variable {α : Type} [Scalar α]

/-- A call that filters a reel in its place. -/
structure FilterCall (α : Type) [Scalar α] where
  reel : ℕ
  filter : Filter α
  overlapAdd : Given Bool

/-! ### What a filter changes -/

namespace Studio

variable {st : Studio α} {r : ℕ}

/-- **Calls one after the other.** A call that fails leaves what it has done. -/
def filterAll (st : Studio α) (calls : List (FilterCall α)) : Studio α :=
  calls.foldl (fun st call => (Session.convolve call.reel call.filter call.overlapAdd st).2) st

/-- A filter changes no other reel. -/
theorem getElem?_convolve {reel : ℕ} (hne : r ≠ reel) (f : Filter α) (overlapAdd : Given Bool)
    (st : Studio α) : (Session.convolve reel f overlapAdd st).2.reels[r]? = st.reels[r]? := by
  cases hreel : st.reels[reel]? with
  | none =>
    rw [Session.convolve, Session.get_bind, hreel]
    rfl
  | some x =>
    cases hrun : (Session.filtered x f overlapAdd st).1.result with
    | error fault => rw [(Session.convolve_of_filtered_error hreel hrun).2]
    | ok changed =>
      rw [(Session.convolve_of_filtered hreel hrun).2, Array.getElem?_setIfInBounds_ne hne.symm]

/-- **Calls change no reels but those that they are for.** -/
theorem getElem?_filterAll (calls : List (FilterCall α)) (h : ∀ call ∈ calls, call.reel ≠ r)
    (st : Studio α) : (st.filterAll calls).reels[r]? = st.reels[r]? := by
  induction calls generalizing st with
  | nil => rfl
  | cons call calls ih =>
    have hcall : r ≠ call.reel := (h call List.mem_cons_self).symm
    show ((Session.convolve call.reel call.filter call.overlapAdd st).2.filterAll calls).reels[r]? = _
    rw [ih (fun c hc => h c (List.mem_cons_of_mem _ hc)), getElem?_convolve hcall]

end Studio

namespace Signal

variable {s : Signal α} {st : Studio α} {calls : List (FilterCall α)}

/-- **A signal that plays back none of the reels** sounds as before. -/
theorem sample_filterAll (h : ∀ call ∈ calls, ¬ s.PlaysBack call.reel) (st : Studio α) :
    s.sample (st.filterAll calls).reels = s.sample st.reels := by
  refine sample_congr fun r hr => Studio.getElem?_filterAll calls (fun call hcall heq => ?_) st
  exact h call hcall (heq ▸ hr)

/-! ### Clones in a studio -/

/-- **A graph of a studio**: its identities have been handed out, and its reels are there. -/
structure LivesIn (s : Signal α) (st : Studio α) : Prop where
  coherent : Coherent s
  ids : ∀ a ∈ s.places, a.id < st.next
  reels : ∀ r, s.PlaysBack r → r < st.reels.size

/-- **What a clone is in a studio**, for the studios before and after it is made. -/
structure ClonedIn (s : Signal α) (st : Studio α) (copy : Signal α) (st' : Studio α) : Prop where
  sample : ∀ t, copy.sample st'.reels t = s.sample st.reels t
  shares : s.SharesAlike copy
  /-- The clone has no generator of the graph. -/
  apart : ∀ a ∈ s.places, ∀ b ∈ copy.places, a.id ≠ b.id
  lives : copy.LivesIn st'
  /-- The graphs of the studio stay what they were. -/
  others : ∀ x : Signal α, x.LivesIn st → x.LivesIn st' ∧ ∀ t, x.sample st'.reels t = x.sample st.reels t
  /-- Filters called for reels of the graph do not change the clone. -/
  kept : ∀ calls : List (FilterCall α), (∀ call ∈ calls, s.PlaysBack call.reel) →
    ∀ t, copy.sample (st'.filterAll calls).reels t = copy.sample st'.reels t
  /-- Filters called for reels of the clone do not change the graph. -/
  keeps : ∀ calls : List (FilterCall α), (∀ call ∈ calls, copy.PlaysBack call.reel) →
    ∀ t, s.sample (st'.filterAll calls).reels t = s.sample st'.reels t

/-- What is cloned is cloned in the studio. -/
theorem Cloned.clonedIn {copy : Signal α} {st' : Studio α} (hs : s.LivesIn st)
    (h : Cloned s st.reels st.next copy st'.reels st'.next) : s.ClonedIn st copy st' := by
  -- the reels of the graph come before those of the clone
  have hdisjoint : ∀ r, s.PlaysBack r → ¬ copy.PlaysBack r := by
    intro r hr hcopy
    exact absurd (hs.reels r hr) (h.played r hcopy).1.not_gt
  have hnext : st.next ≤ st'.next :=
    ((h.ids copy (self_mem_places copy)).1.trans_lt (h.ids copy (self_mem_places copy)).2).le
  have hothers : ∀ x : Signal α, x.LivesIn st → x.LivesIn st' ∧
      ∀ t, x.sample st'.reels t = x.sample st.reels t := by
    intro x hx
    refine ⟨⟨hx.coherent, fun a ha => (hx.ids a ha).trans_le hnext,
      fun r hr => (hx.reels r hr).trans_le h.size⟩, fun t => ?_⟩
    exact congrFun (sample_congr fun r hr => h.kept r (hx.reels r hr)) t
  exact {
    sample := fun t => congrFun h.sample t
    shares := h.shares
    apart := fun a ha b hb => ((hs.ids a ha).trans_le (h.ids b hb).1).ne
    lives := ⟨h.coherent, fun a ha => (h.ids a ha).2, fun r hr => (h.played r hr).2⟩
    others := hothers
    kept := fun calls hcalls t =>
      congrFun (sample_filterAll (fun call hcall => hdisjoint _ (hcalls call hcall)) st') t
    keeps := fun calls hcalls t =>
      congrFun (sample_filterAll (fun call hcall hr => hdisjoint _ hr (hcalls call hcall)) st') t }

end Signal

namespace Session

/-- **Clones are faithful and isolated**, and filters are heard only by signals that play back a reel that
they are called for. -/
theorem clone_isolated {s : Signal α} {st : Studio α} (hs : s.LivesIn st) :
    (∃ copy st', clone s st = (.pure copy, st') ∧ s.ClonedIn st copy st') ∧
    ∀ (st' : Studio α) (calls : List (FilterCall α)) (x : Signal α),
      (∀ call ∈ calls, ¬ x.PlaysBack call.reel) →
        ∀ t, x.sample (st'.filterAll calls).reels t = x.sample st'.reels t := by
  refine ⟨⟨_, _, rfl, ?_⟩, fun st' calls x h t => congrFun (Signal.sample_filterAll h st') t⟩
  exact (Signal.cloned hs.coherent hs.reels st.next).clonedIn hs

/-- A reel that is mixed with itself, and filters that are called for it. -/
theorem clone_isolated_doubled_reel : ∃ (s copy : Signal ℝ) (st st' : Studio ℝ),
    s.places.map Signal.id = [1, 0, 0] ∧ s.PlaysBack 0 ∧ clone s st = (.pure copy, st') ∧
      ∀ f overlapAdd t,
        copy.sample (convolve 0 f overlapAdd st').2.reels t = s.sample st.reels t := by
  let r : Reel ℝ := ⟨#[1, 2], 2, by simp [Scalar.le]⟩
  let st : Studio ℝ := { Studio.empty (.empty []) with next := 2, reels := #[r] }
  let tape : Signal ℝ := .node 0 (.playback 0) Fin.elim0
  let s : Signal ℝ := .node 1 (.mix fun _ : Fin 2 => 1) fun _ => tape
  have hplaces : ∀ a ∈ s.places, a = s ∨ a = tape := by
    intro a ha
    have hlist : s.places = [s, tape, tape] := rfl
    simpa [hlist] using ha
  have hback : s.PlaysBack 0 := ⟨tape, List.mem_cons_of_mem _ List.mem_cons_self, rfl⟩
  have hs : s.LivesIn st := by
    refine ⟨?_, ?_, ?_⟩
    · intro a ha b hb hid
      rcases hplaces a ha with rfl | rfl <;> rcases hplaces b hb with rfl | rfl <;>
        first
        | rfl
        | cases hid
    · intro a ha
      rcases hplaces a ha with rfl | rfl <;> decide
    · rintro r ⟨a, ha, hr⟩
      rcases hplaces a ha with rfl | rfl <;> cases hr
      decide
  obtain ⟨⟨copy, st', hclone, hcloned⟩, -⟩ := clone_isolated hs
  refine ⟨s, copy, st, st', rfl, hback, hclone, fun f overlapAdd t => ?_⟩
  rw [← hcloned.sample t]
  exact hcloned.kept [⟨0, f, overlapAdd⟩] (by simpa using hback) t

end Session

end Polyphony
