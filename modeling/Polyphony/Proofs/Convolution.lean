import Polyphony.Proofs.Spectrum

/-!
# Overlapping blocks give the linear convolution

* `linear`: the linear convolution of a buffer and a kernel, sample by sample.
* `getD_addAll`: what adding up overlapping segments leaves in each place.
* `getD_filtered_segment`: **no tail wraps around.** A segment of `hop` samples and a kernel of `m`
  samples fit into a block of `hop + m - 1`, so the circular convolution of the block is linear.
* `getD_overlapAdd`: the overlapping blocks add up to the linear convolution of the whole buffer.
-/

namespace Polyphony.Convolution

open Finset Spectrum

/-- **The linear convolution** at a place: the sum of all products whose places add up to it. -/
noncomputable def linear (x y : Array ℝ) (k : ℕ) : ℝ :=
  ∑ i ∈ range x.size, ∑ j ∈ range y.size, if i + j = k then x.getD i 0 * y.getD j 0 else 0

/-! ### Segments -/

variable {x y : Array ℝ} {hop : ℕ}

theorem size_segment {α : Type} [Scalar α] (x : Array α) (hop s : ℕ) :
    (segment x hop s).size = hop := by
  simp [segment]

theorem getD_segment {p : ℕ} (hp : p < hop) (s : ℕ) :
    (segment x hop s).getD p 0 = x.getD (s * hop + p) 0 := by
  simp [segment, hp]

theorem le_segmentCount_mul (size : ℕ) (hhop : 0 < hop) : size ≤ segmentCount size hop * hop := by
  have h1 := Nat.div_add_mod (size + hop - 1) hop
  have h2 := Nat.mod_lt (size + hop - 1) hhop
  rw [segmentCount, Nat.mul_comm]
  omega

/-- A sum over the places of whole segments, segment by segment. -/
theorem sum_range_mul (count hop : ℕ) (f : ℕ → ℝ) :
    ∑ i ∈ range (count * hop), f i = ∑ s ∈ range count, ∑ p ∈ range hop, f (s * hop + p) := by
  induction count with
  | zero => simp
  | succ count ih => rw [Nat.succ_mul, sum_range_add, ih, sum_range_succ]

/-- The linear convolution, segment by segment. -/
theorem linear_eq_sum_segments (hhop : 0 < hop) (k : ℕ) :
    linear x y k = ∑ s ∈ range (segmentCount x.size hop), ∑ p ∈ range hop, ∑ q ∈ range y.size,
      if s * hop + p + q = k then x.getD (s * hop + p) 0 * y.getD q 0 else 0 := by
  rw [← sum_range_mul _ _ fun i =>
    ∑ q ∈ range y.size, if i + q = k then x.getD i 0 * y.getD q 0 else 0]
  -- the last segment may reach beyond the buffer, where there is silence
  refine sum_subset (range_mono (le_segmentCount_mul _ hhop)) fun i _ hi => ?_
  have hx : x.getD i 0 = 0 := by
    rw [mem_range, not_lt] at hi
    simp [hi]
  simp [hx]

/-! ### Adding segments -/

@[simp] theorem size_addAt (out : Array ℝ) (position : ℕ) (s : Array ℝ) :
    (addAt out position s).size = out.size := by
  simp [addAt]

theorem getD_addAt {out : Array ℝ} {k : ℕ} (hk : k < out.size) (position : ℕ) (s : Array ℝ) :
    (addAt out position s).getD k 0 =
      out.getD k 0 + if position ≤ k then s.getD (k - position) 0 else 0 := by
  simp only [addAt, Array.getD_eq_getD_getElem?, Array.getElem?_mapIdx, Array.getElem?_eq_getElem hk,
    Option.map_some, Option.getD_some]
  by_cases hp : position ≤ k
  · by_cases hs : k < position + s.size
    · simp [hp, hs]
    · have hnone : s[k - position]? = none := Array.getElem?_eq_none (by omega)
      simp [hs, hnone]
  · simp [hp]

@[simp] theorem size_addAll (segments : List (Array ℝ)) (position : ℕ) (out : Array ℝ) :
    (addAll hop position segments out).size = out.size := by
  induction segments generalizing position out with
  | nil => rfl
  | cons s rest ih => rw [addAll, ih, size_addAt]

/-- **What adding segments leaves** in a place: what was there, and what each segment has there. -/
theorem getD_addAll (segments : List (Array ℝ)) (position : ℕ) {out : Array ℝ} {k : ℕ}
    (hk : k < out.size) :
    (addAll hop position segments out).getD k 0 = out.getD k 0 +
      ∑ s ∈ range segments.length, if position + s * hop ≤ k then
        (segments.getD s #[]).getD (k - (position + s * hop)) 0 else 0 := by
  induction segments generalizing position out with
  | nil => simp [addAll]
  | cons s rest ih =>
    rw [addAll, ih (position + hop) (by simpa using hk), getD_addAt hk, List.length_cons,
      sum_range_succ', add_assoc, add_comm (ite _ _ _)]
    simp only [List.getD_cons_succ, List.getD_cons_zero, Nat.zero_mul, Nat.add_zero, Nat.succ_mul,
      Nat.add_assoc, Nat.add_comm hop]

/-! ### Overlapping blocks -/

/-- **No tail wraps around**: a filtered segment is its linear convolution with the kernel, moved to
the place of the segment. -/
theorem getD_filtered_segment {h : ℕ} (hh : 0 < h) (hblock : hop + y.size = 2 * h + 1) (s k : ℕ) :
    (if s * hop ≤ k then
      (filtered (circle (2 * h)) (forward (circle (2 * h)) y) (segment x hop s)).getD
        (k - s * hop) 0 else 0) =
      ∑ p ∈ range hop, ∑ q ∈ range y.size,
        if s * hop + p + q = k then x.getD (s * hop + p) 0 * y.getD q 0 else 0 := by
  by_cases hk : s * hop ≤ k
  · rw [if_pos hk]
    -- inside the block no two places add up to its length, so the remainder does nothing
    by_cases hj : k - s * hop < 2 * h
    · rw [getD_filtered hh _ _ hj, size_segment]
      refine sum_congr rfl fun p hp => sum_congr rfl fun q hq => ?_
      rw [mem_range] at hp hq
      rw [getD_segment hp, Nat.mod_eq_of_lt (by omega)]
      exact if_congr (by omega) rfl rfl
    · -- beyond the block there is nothing, and no two places add up that far
      have hsize : (filtered (circle (2 * h)) (forward (circle (2 * h)) y) (segment x hop s)).size =
          2 * h := size_inverse _ _
      have hnone : (filtered (circle (2 * h)) (forward (circle (2 * h)) y)
          (segment x hop s)).getD (k - s * hop) 0 = 0 := by
        rw [Array.getD_eq_getD_getElem?, Array.getElem?_eq_none (by omega)]; rfl
      rw [hnone]
      refine (sum_eq_zero fun p hp => sum_eq_zero fun q hq => if_neg ?_).symm
      rw [mem_range] at hp hq
      omega
  · rw [if_neg hk]
    exact (sum_eq_zero fun p _ => sum_eq_zero fun q _ => if_neg (by omega)).symm

theorem linear_eq_zero {k : ℕ} (hk : x.size + y.size ≤ k + 1) : linear x y k = 0 := by
  refine sum_eq_zero fun i hi => sum_eq_zero fun j hj => if_neg ?_
  rw [mem_range] at hi hj
  omega

theorem getD_extract {out : Array ℝ} {k n : ℕ} (hk : k < n) (hn : k < out.size) :
    (out.extract 0 n).getD k 0 = out.getD k 0 := by
  simp [hn, hk]

/-- Overlapping blocks, with the length of a segment as a variable. -/
theorem overlapAdd_eq {m block : ℕ} (hx : 0 < x.size) (hm : 0 < m) (hblock : hop + m = block + 1)
    (kernel : Spectrum ℝ) :
    overlapAdd kernel block m x =
      (addAll hop 0 ((segments x hop).map (filtered (circle block) kernel))
        (Array.replicate (segmentCount x.size hop * hop + (m - 1)) 0)).extract 0
        (x.size + (m - 1)) := by
  obtain rfl : block - (m - 1) = hop := by omega
  have hne : x.isEmpty = false := by simpa [Array.isEmpty_iff_size_eq_zero] using hx.ne'
  simp [overlapAdd, hne]

theorem size_overlapAdd {m block : ℕ} (hx : 0 < x.size) (hm : 0 < m) (hblock : m ≤ block)
    (kernel : Spectrum ℝ) : (overlapAdd kernel block m x).size = x.size + m - 1 := by
  have hle := le_segmentCount_mul x.size (show 0 < block + 1 - m by omega)
  rw [overlapAdd_eq hx hm (by omega : block + 1 - m + m = block + 1), Array.size_extract,
    size_addAll, Array.size_replicate]
  omega

/-- **Overlapping blocks add up to the linear convolution**, for every even block that is not
shorter than the kernel. -/
theorem getD_overlapAdd {h : ℕ} (hx : 0 < x.size) (hy : 0 < y.size) (hyh : y.size ≤ 2 * h) (k : ℕ) :
    (overlapAdd (forward (circle (2 * h)) y) (2 * h) y.size x).getD k 0 = linear x y k := by
  by_cases hk : k < x.size + (y.size - 1)
  · obtain ⟨hop, hblock⟩ : ∃ hop, hop + y.size = 2 * h + 1 := ⟨2 * h + 1 - y.size, by omega⟩
    have hhop : 0 < hop := by omega
    have hle := le_segmentCount_mul x.size hhop
    have hsilence : ∀ n, (Array.replicate n (0 : ℝ)).getD k 0 = 0 := by
      intro n
      rw [Array.getD_eq_getD_getElem?, Array.getElem?_replicate]
      split <;> rfl
    rw [overlapAdd_eq hx hy hblock, getD_extract hk (by rw [size_addAll, Array.size_replicate]; omega),
      getD_addAll _ _ (by rw [Array.size_replicate]; omega), hsilence, zero_add,
      linear_eq_sum_segments hhop, segments, List.map_map, List.length_map, List.length_range]
    refine sum_congr rfl fun s hs => ?_
    rw [← getD_filtered_segment (by omega) hblock]
    simp [mem_range.1 hs]
  · have hsize := size_overlapAdd hx hy hyh (forward (circle (2 * h)) y)
    rw [linear_eq_zero (by omega), Array.getD_eq_getD_getElem?, Array.getElem?_eq_none (by omega)]
    rfl

end Polyphony.Convolution
