import Mathlib
import Polyphony.Proofs.Signal.Antiderivative

/-!
# Gates laid end to end

Sources that are gated one after another and mixed play in turn. Gates are half-open, so at every
time at most one of them is open.

* `Schedule`: times in order. Between two neighbours lies a stage (`Schedule.stage`), which may be
  empty.
* `Signal.InStages`: a signal plays a source in each stage.
* `InStages.sample_eq`, `InStages.primitive_eq`: what it plays, and what its antiderivative plays:
  **in each stage the integral from the opening of that stage on**.
* `InStages.primitive_le`: so the antiderivative of what is never negative runs forwards as long as
  no stage ends, and `InStages.monotone_primitive_iff`: it does so at all times only if it never
  leaves zero.
-/

namespace Polyphony

open Exact

/-! ### Stages -/

/-- **Times in order**: stage `i` goes from time `i` to time `i + 1`. -/
structure Schedule (n : ℕ) where
  time : Fin (n + 1) → ℝ
  ordered : Monotone time

namespace Schedule

variable {n : ℕ} (c : Schedule n) {i j : Fin n} {t : ℝ}

theorem time_castSucc_le (i : Fin n) : c.time i.castSucc ≤ c.time i.succ :=
  c.ordered i.castSucc_lt_succ.le

/-- The times of a stage, with its beginning and without its end. -/
def stage (i : Fin n) : Set ℝ := Set.Ico (c.time i.castSucc) (c.time i.succ)

/-- A stage as the span of a gate. -/
def span (i : Fin n) : Span ℝ :=
  ⟨c.time i.castSucc, c.time i.succ, by simpa [Scalar.lt] using c.time_castSucc_le i⟩

variable {c}

theorem not_lt_of_mem_stage (hi : t ∈ c.stage i) (hj : t ∈ c.stage j) : ¬ i < j := by
  intro hij
  have hle : c.time i.succ ≤ c.time j.castSucc := c.ordered (Fin.succ_le_castSucc_iff.2 hij)
  exact absurd (hle.trans hj.1) (not_le.2 hi.2)

/-- **A time lies in one stage only.** -/
theorem stage_unique (hi : t ∈ c.stage i) (hj : t ∈ c.stage j) : i = j :=
  le_antisymm (not_lt.1 (not_lt_of_mem_stage hj hi)) (not_lt.1 (not_lt_of_mem_stage hi hj))

theorem sum_of_mem_stage {f : Fin n → ℝ} (ht : t ∈ c.stage i) :
    ∑ j, (if c.time j.castSucc ≤ t ∧ t < c.time j.succ then f j else 0) = f i := by
  rw [Finset.sum_eq_single i]
  · exact if_pos ht
  · intro j _ hne
    exact if_neg fun hj => hne (stage_unique hj ht)
  · intro hi
    exact absurd (Finset.mem_univ i) hi

theorem sum_of_forall_notMem {f : Fin n → ℝ} (ht : ∀ i, t ∉ c.stage i) :
    ∑ j, (if c.time j.castSucc ≤ t ∧ t < c.time j.succ then f j else 0) = 0 :=
  Finset.sum_eq_zero fun j _ => if_neg (ht j)

end Schedule

/-! ### Signals in stages -/

theorem Signal.hasDerivAt_of_affine {s : Signal ℝ} (hs : s.All fun _ u => u.IsAffine)
    (later : Reels ℝ) (t : ℝ) : HasDerivAt s.primitive (s.sample later t) t :=
  hasDerivAt_primitive (hs.mono fun _ _ hu => .affine hu) t

/-- **The signal plays a source in each stage**: it mixes the sources, each through a gate. -/
def Signal.InStages {n : ℕ} (c : Schedule n) (sources : Fin n → Signal ℝ) (s : Signal ℝ) : Prop :=
  ∃ (id : ℕ) (ids : Fin n → ℕ), s = .node id (.mix fun _ => 1.0) fun i =>
    .node (ids i) (.gate (c.span i)) fun _ => sources i

namespace Signal.InStages

variable {n : ℕ} {c : Schedule n} {sources : Fin n → Signal ℝ} {s : Signal ℝ} {later : Reels ℝ}
  {i : Fin n} {t u : ℝ}

theorem sample_eq (h : s.InStages c sources) (later : Reels ℝ) (t : ℝ) :
    s.sample later t = ∑ i, if c.time i.castSucc ≤ t ∧ t < c.time i.succ
      then (sources i).sample later t else 0 := by
  obtain ⟨id, ids, rfl⟩ := h
  rw [sample_node, Ugen.sample_mix]
  refine Finset.sum_congr rfl fun i _ => ?_
  rw [sample_node, Ugen.sample_gate, one_lit, one_mul]
  rfl

theorem primitive_eq (h : s.InStages c sources) (t : ℝ) :
    s.primitive t = ∑ i, if c.time i.castSucc ≤ t ∧ t < c.time i.succ
      then (sources i).primitive t - (sources i).primitive (c.time i.castSucc) else 0 := by
  obtain ⟨id, ids, rfl⟩ := h
  show ∑ i : Fin n, (1.0 : ℝ) * _ = _
  refine Finset.sum_congr rfl fun i _ => ?_
  rw [one_lit, one_mul]
  rfl

/-- It is integrated if its sources are. -/
theorem succeeds_integral (h : s.InStages c sources) {reels : Reels ℝ}
    (hsources : ∀ i, Wiring.Succeeds reels (sources i).integral) :
    Wiring.Succeeds reels s.integral := by
  obtain ⟨id, ids, rfl⟩ := h
  refine Wiring.Succeeds.bind (Wiring.Succeeds.ofFnM fun i => ?_) fun _ => Wiring.succeeds_place _ _
  exact (hsources i).bind fun _ => Wiring.succeeds_read.bind fun _ =>
    (Ugen.succeeds_lessValue _ _).bind fun _ => Wiring.succeeds_place _ _

theorem sample_of_mem (h : s.InStages c sources) (ht : t ∈ c.stage i) :
    s.sample later t = (sources i).sample later t := by
  rw [h.sample_eq, Schedule.sum_of_mem_stage ht]

theorem sample_of_forall_notMem (h : s.InStages c sources) (ht : ∀ i, t ∉ c.stage i) :
    s.sample later t = 0 := by
  rw [h.sample_eq, Schedule.sum_of_forall_notMem ht]

theorem primitive_of_mem (h : s.InStages c sources) (ht : t ∈ c.stage i) :
    s.primitive t = (sources i).primitive t - (sources i).primitive (c.time i.castSucc) := by
  rw [h.primitive_eq, Schedule.sum_of_mem_stage ht]

theorem primitive_of_forall_notMem (h : s.InStages c sources) (ht : ∀ i, t ∉ c.stage i) :
    s.primitive t = 0 := by
  rw [h.primitive_eq, Schedule.sum_of_forall_notMem ht]

/-- **Every stage is integrated from zero**, so there is nothing at the times of the schedule. -/
theorem primitive_time (h : s.InStages c sources) (k : Fin (n + 1)) : s.primitive (c.time k) = 0 := by
  by_cases hk : ∃ i, c.time k ∈ c.stage i
  · obtain ⟨i, hi⟩ := hk
    have hlt : k < i.succ := lt_of_not_ge fun hge => absurd (c.ordered hge) (not_le.2 hi.2)
    have heq : c.time k = c.time i.castSucc :=
      le_antisymm (c.ordered (Fin.le_castSucc_iff.2 hlt)) hi.1
    rw [h.primitive_of_mem hi, heq, sub_self]
  · push Not at hk
    exact h.primitive_of_forall_notMem hk

/-! ### Affine sources -/

variable (haffine : ∀ i, (sources i).All fun _ u => u.IsAffine)

include haffine

/-- What has been played between two times of one stage is the area of a trapezoid. -/
theorem primitive_sub_of_mem (h : s.InStages c sources) (later : Reels ℝ) (hu : u ∈ c.stage i)
    (ht : t ∈ c.stage i) : s.primitive t - s.primitive u =
      (t - u) * (s.sample later u + s.sample later t) / 2 := by
  obtain ⟨a, b, hab⟩ := sample_affine later (haffine i)
  have harea := sub_eq_of_hasDerivAt_affine hab (hasDerivAt_of_affine (haffine i) later) u t
  rw [h.primitive_of_mem hu, h.primitive_of_mem ht, h.sample_of_mem hu, h.sample_of_mem ht]
  linarith

/-- **In a stage the antiderivative is the area** under what has been played since it began. -/
theorem primitive_eq_integral (h : s.InStages c sources) (later : Reels ℝ) (ht : t ∈ c.stage i) :
    s.primitive t = ∫ u in c.time i.castSucc..t, s.sample later u := by
  obtain ⟨a, b, hab⟩ := sample_affine later (haffine i)
  have hcont : Continuous ((sources i).sample later) := by
    rw [funext hab]
    fun_prop
  have hsame : ∀ u ∈ Set.uIcc (c.time i.castSucc) t,
      s.sample later u = (sources i).sample later u := by
    intro u hu
    rw [Set.uIcc_of_le ht.1] at hu
    exact h.sample_of_mem ⟨hu.1, hu.2.trans_lt ht.2⟩
  rw [intervalIntegral.integral_congr hsame, h.primitive_of_mem ht]
  exact (intervalIntegral.integral_eq_sub_of_hasDerivAt
    (fun u _ => hasDerivAt_of_affine (haffine i) later u) (hcont.intervalIntegrable _ _)).symm

/-! ### What is never negative -/

variable (hnonneg : ∀ u, 0 ≤ s.sample later u)

include hnonneg

/-- Within a stage the antiderivative runs forwards. -/
theorem primitive_le_of_mem (h : s.InStages c sources) (hu : u ∈ c.stage i) (ht : t ∈ c.stage i)
    (hut : u ≤ t) : s.primitive u ≤ s.primitive t := by
  have harea := h.primitive_sub_of_mem haffine later hu ht
  have hpos : 0 ≤ (t - u) * (s.sample later u + s.sample later t) :=
    mul_nonneg (sub_nonneg.2 hut) (add_nonneg (hnonneg u) (hnonneg t))
  linarith

theorem primitive_nonneg (h : s.InStages c sources) (t : ℝ) : 0 ≤ s.primitive t := by
  by_cases ht : ∃ i, t ∈ c.stage i
  · obtain ⟨i, hi⟩ := ht
    have hbegin : c.time i.castSucc ∈ c.stage i := ⟨le_rfl, hi.1.trans_lt hi.2⟩
    rw [← h.primitive_time i.castSucc]
    exact h.primitive_le_of_mem haffine hnonneg hbegin hi hi.1
  · push Not at ht
    exact (h.primitive_of_forall_notMem ht).ge

/-- **It runs forwards as long as no stage ends** in which it has left zero. -/
theorem primitive_le (h : s.InStages c sources) (hut : u ≤ t)
    (hend : ∀ i, (∃ v ∈ c.stage i, 0 < s.primitive v) → u < c.time i.succ → t < c.time i.succ) :
    s.primitive u ≤ s.primitive t := by
  by_cases hzero : s.primitive u = 0
  · rw [hzero]
    exact h.primitive_nonneg haffine hnonneg t
  · -- it has left zero, so `u` lies in a stage, and `t` in the same one
    have hstage : ∃ i, u ∈ c.stage i := by
      by_contra hnone
      push Not at hnone
      exact hzero (h.primitive_of_forall_notMem hnone)
    obtain ⟨i, hi⟩ := hstage
    have hpos : 0 < s.primitive u :=
      lt_of_le_of_ne (h.primitive_nonneg haffine hnonneg u) (Ne.symm hzero)
    have ht : t ∈ c.stage i := ⟨hi.1.trans hut, hend i ⟨u, hi, hpos⟩ hi.2⟩
    exact h.primitive_le_of_mem haffine hnonneg hi ht hut

/-- **It runs forwards at all times only if it never leaves zero.** -/
theorem monotone_primitive_iff (h : s.InStages c sources) :
    Monotone s.primitive ↔ ∀ i, ∀ t ∈ c.stage i, s.primitive t = 0 := by
  constructor
  · intro hmono i t ht
    have hle : s.primitive t ≤ s.primitive (c.time i.succ) := hmono ht.2.le
    rw [h.primitive_time] at hle
    exact le_antisymm hle (h.primitive_nonneg haffine hnonneg t)
  · intro hzero u t hut
    refine h.primitive_le haffine hnonneg hut fun i ⟨v, hv, hpos⟩ => ?_
    exact absurd (hzero i v hv) hpos.ne'

end Signal.InStages

end Polyphony
