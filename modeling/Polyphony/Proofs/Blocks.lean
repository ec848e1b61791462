import Mathlib.Algebra.Order.Floor.Div
import Polyphony.Proofs.StoredSpectra

/-!
# Independent blocks give circular convolutions

* `Convolution.IsCircular`: the circular convolution of a buffer and a kernel, block by block. A block
  of it depends on the same block of the buffer alone (`IsCircular.block_eq`).
* `Convolution.isCircular_independent`: **that is what independent blocks leave.** The sum over pairs
  of places is one over the kernel alone (`getD_filtered_turn`), and the blocks are joined in order
  (`getD_foldl_append`).
* `Filter.Has`: the kernel and the block of a filter, whichever way it is given.
* `Session.convolve_independent`: so does every studio that can be reached, unless it has no room for the
  spectrum; `Session.convolve_circular_of_room`: given room, it always does.
-/

namespace Polyphony

open Finset Spectrum

namespace Convolution

variable {block : ℕ} {x x' y z z' : Array ℝ}

/-- **The circular convolution of every block**: the buffer is padded to whole blocks, and each place
gets the samples of its own block, taken backwards around it, weighted by the kernel. -/
structure IsCircular (block : ℕ) (x y z : Array ℝ) : Prop where
  size : z.size = block * (x.size ⌈/⌉ block)
  value : ∀ q j, j < block → z.getD (q * block + j) 0 =
    ∑ k ∈ range y.size, y.getD k 0 * x.getD (q * block + ((j - k : ℤ) % block).toNat) 0

/-- Two buffers with the same samples in a block. Beyond its end a buffer is silent. -/
def EqInBlock (block q : ℕ) (x x' : Array ℝ) : Prop :=
  ∀ j, j < block → x.getD (q * block + j) 0 = x'.getD (q * block + j) 0

/-- A kernel that is one at its first sample and silent from then on. -/
def IsImpulse (y : Array ℝ) : Prop := ∀ k, y.getD k 0 = if k = 0 then 1 else 0

/-- Around a block no place is left. -/
theorem turn_lt (hblock : 0 < block) (m : ℤ) : (m % block).toNat < block := by
  have h1 := Int.emod_nonneg m (Int.natCast_ne_zero.2 hblock.ne')
  have h2 := Int.emod_lt_of_pos m (Int.natCast_pos.2 hblock)
  omega

/-- **A block of the result depends on the same block of the buffer alone.** -/
theorem IsCircular.block_eq (h : IsCircular block x y z) (h' : IsCircular block x' y z') {q : ℕ}
    (hq : EqInBlock block q x x') : EqInBlock block q z z' := by
  intro j hj
  rw [h.value q j hj, h'.value q j hj]
  exact sum_congr rfl fun k _ => by rw [hq _ (turn_lt (by omega) _)]

/-- **An impulse leaves the buffer**, padded to whole blocks. -/
theorem IsCircular.eq_of_isImpulse (h : IsCircular block x y z) (hy : IsImpulse y)
    (hblock : 0 < block) (i : ℕ) : z.getD i 0 = x.getD i 0 := by
  have hj := Nat.mod_lt i hblock
  have hi : i / block * block + i % block = i := by rw [Nat.mul_comm]; exact Nat.div_add_mod i block
  have hvalue := h.value (i / block) (i % block) hj
  have hsize : 0 < y.size := by
    by_contra hsize
    have hone := hy 0
    simp [Array.getD, hsize] at hone
  rw [hi] at hvalue
  -- of the weights only the first one is left
  rw [hvalue, sum_eq_single_of_mem 0 (mem_range.2 hsize) fun k _ hk => by rw [hy, if_neg hk, zero_mul],
    hy, if_pos rfl, one_mul, Nat.cast_zero, sub_zero, ← Int.natCast_emod, Nat.mod_mod,
    Int.toNat_natCast, hi]

/-! ### One block -/

/-- The place that is brought to `j` by going on for `k` places around a block. -/
theorem add_mod_eq_iff {n p k j : ℕ} (hp : p < n) (hj : j < n) :
    (p + k) % n = j ↔ p = ((j - k : ℤ) % n).toNat := by
  have hturn : (((j - k : ℤ) % n).toNat : ℤ) = (j - k : ℤ) % n :=
    Int.toNat_of_nonneg (Int.emod_nonneg _ (by omega))
  have hplace : (p : ℤ) = (p : ℤ) % n := (Int.emod_eq_of_lt (by omega) (by omega)).symm
  have hend : (j : ℤ) = (j : ℤ) % n := (Int.emod_eq_of_lt (by omega) (by omega)).symm
  calc (p + k) % n = j ↔ ((p + k : ℤ) % n = (j : ℤ) % n) := by rw [← hend]; exact_mod_cast Iff.rfl
    _ ↔ (p : ℤ) % n = (j - k : ℤ) % n := by
      show p + k ≡ j [ZMOD n] ↔ p ≡ j - k [ZMOD n]
      rw [Int.modEq_iff_dvd, Int.modEq_iff_dvd, sub_sub, add_comm]
    _ ↔ p = ((j - k : ℤ) % n).toNat := by rw [← hplace, ← hturn]; exact Int.ofNat_inj

/-- **A filtered block**, as a sum over the kernel: every sample of the kernel meets the one sample of
the block that lies so many places before. -/
theorem getD_filtered_turn {h : ℕ} (hh : 0 < h) (hx : x.size = 2 * h) {j : ℕ} (hj : j < 2 * h) :
    (filtered (circle (2 * h)) (forward (circle (2 * h)) y) x).getD j 0 =
      ∑ k ∈ range y.size, y.getD k 0 * x.getD ((j - k : ℤ) % (2 * h : ℕ)).toNat 0 := by
  rw [getD_filtered hh x y hj, sum_comm, hx]
  refine sum_congr rfl fun k _ => ?_
  -- of the places of the block one is brought to `j`
  have hturn := turn_lt (show 0 < 2 * h by omega) (j - k)
  rw [sum_eq_single_of_mem _ (mem_range.2 hturn) fun p hp hne =>
    if_neg (mt (add_mod_eq_iff (mem_range.1 hp) hj).1 hne),
    if_pos ((add_mod_eq_iff hturn hj).2 rfl), mul_comm]

/-! ### Joined blocks -/

theorem getD_foldl_append_of_lt (blocks : List (Array ℝ)) {out : Array ℝ} {i : ℕ}
    (hi : i < out.size) : (blocks.foldl (· ++ ·) out).getD i 0 = out.getD i 0 := by
  induction blocks generalizing out with
  | nil => rfl
  | cons b blocks ih =>
    rw [List.foldl_cons, ih (by rw [Array.size_append]; omega)]
    simp [Array.getElem?_append_left hi]

/-- **Blocks of one size that are joined** keep their order. -/
theorem getD_foldl_append {size : ℕ} {blocks : List (Array ℝ)} (h : ∀ b ∈ blocks, b.size = size)
    (out : Array ℝ) (q : ℕ) {j : ℕ} (hj : j < size) :
    (blocks.foldl (· ++ ·) out).getD (out.size + (q * size + j)) 0 =
      (blocks.getD q #[]).getD j 0 := by
  induction blocks generalizing out q with
  | nil => simp
  | cons b blocks ih =>
    obtain ⟨rfl, hblocks⟩ := List.forall_mem_cons.1 h
    cases q with
    | zero =>
      have hplace : out.size + (0 * b.size + j) < (out ++ b).size := by
        rw [Array.size_append]; omega
      rw [List.foldl_cons, getD_foldl_append_of_lt blocks hplace]
      simp [Array.getElem?_append_right]
    | succ q =>
      have hplace : out.size + ((q + 1) * b.size + j) = (out ++ b).size + (q * b.size + j) := by
        rw [Array.size_append, Nat.succ_mul]; omega
      rw [List.foldl_cons, hplace, ih hblocks, List.getD_cons_succ]

theorem size_foldl_append {size : ℕ} {blocks : List (Array ℝ)} (h : ∀ b ∈ blocks, b.size = size)
    (out : Array ℝ) :
    (blocks.foldl (· ++ ·) out).size = out.size + blocks.length * size := by
  induction blocks generalizing out with
  | nil => simp
  | cons b blocks ih =>
    obtain ⟨rfl, hblocks⟩ := List.forall_mem_cons.1 h
    rw [List.foldl_cons, ih hblocks, Array.size_append, List.length_cons, Nat.succ_mul]
    omega

/-- **Independent blocks leave the circular convolution of every block.** -/
theorem isCircular_independent {h : ℕ} (hh : 0 < h) (x y : Array ℝ) :
    IsCircular (2 * h) x y (independent (forward (circle (2 * h)) y) (2 * h) x) := by
  have hsize : ∀ b ∈ (segments x (2 * h)).map (filtered (circle (2 * h)) (forward (circle (2 * h)) y)),
      b.size = 2 * h := by
    intro b hb
    obtain ⟨s, -, rfl⟩ := List.mem_map.1 hb
    exact size_inverse _ _
  refine ⟨?_, fun q j hj => ?_⟩
  · have hcount : (segments x (2 * h)).length = x.size ⌈/⌉ (2 * h) := by
      rw [segments, List.length_map, List.length_range]
      rfl
    rw [independent, size_foldl_append hsize, List.length_map, hcount, Array.size_empty, Nat.zero_add,
      Nat.mul_comm]
  · have hjoined := getD_foldl_append hsize #[] q hj
    rw [Array.size_empty, Nat.zero_add] at hjoined
    rw [independent, hjoined]
    by_cases hq : q < segmentCount x.size (2 * h)
    · have hblock : ((segments x (2 * h)).map
          (filtered (circle (2 * h)) (forward (circle (2 * h)) y))).getD q #[] =
            filtered (circle (2 * h)) (forward (circle (2 * h)) y) (segment x (2 * h) q) := by
        simp [segments, hq]
      rw [hblock, getD_filtered_turn hh (size_segment _ _ _) hj]
      refine sum_congr rfl fun k _ => ?_
      rw [getD_segment (turn_lt (by omega) _)]
    · -- beyond the last block there is nothing, and the buffer is silent there
      have hnone : ((segments x (2 * h)).map
          (filtered (circle (2 * h)) (forward (circle (2 * h)) y))).getD q #[] = #[] := by
        simp [segments, hq]
      rw [hnone]
      have hend : x.size ≤ q * (2 * h) :=
        (le_segmentCount_mul x.size (by omega)).trans (Nat.mul_le_mul_right _ (not_lt.1 hq))
      have hsilent : ∀ p, x.getD (q * (2 * h) + p) 0 = 0 := by
        intro p
        rw [Array.getD_eq_getD_getElem?, Array.getElem?_eq_none (by omega), Option.getD_none]
      simp [hsilent]

end Convolution

open Polyphony.Convolution

/-! ### Filters -/

/-- **The kernel and the block of a filter**: those of a kernel that has been made, or those that a bare
spectrum was computed from, where any even block will do that the kernel fits into. -/
inductive Filter.Has (made : List (Kernel ℝ)) : Filter ℝ → Array ℝ → ℕ → Prop
  | kernel {k} : k ∈ made → Has made (.kernel k) k.samples k.blockSize
  | bare {y : Array ℝ} {block} : block % 2 = 0 → max y.size 2 ≤ block →
      Has made (.bare (forward (circle block) y)) y block

namespace Filter

variable {made : List (Kernel ℝ)} {f : Filter ℝ} {y : Array ℝ} {block : ℕ}

theorem Has.isMade (h : f.Has made y block) : Session.IsMade made f := by
  cases h with
  | kernel hk => exact hk
  | bare _ _ => trivial

theorem Has.exists_half (h : f.Has made y block) : ∃ half, 0 < half ∧ block = 2 * half := by
  cases h with
  | @kernel k _ => exact ⟨k.samples.size, k.nonempty, rfl⟩
  | bare heven hlong => exact ⟨block / 2, by omega, by omega⟩

/-- A spectrum tells the size of its block. -/
theorem apply_forward (f : Filter ℝ) {half : ℕ} (hhalf : 0 < half) (y x : Array ℝ) :
    f.apply (forward (circle (2 * half)) y) false x =
      .ok (independent (forward (circle (2 * half)) y) (2 * half) x, 2 * half) := by
  have hblock : 2 * ((forward (circle (2 * half)) y).size - 1) = 2 * half := by
    rw [size_forward]
    show 2 * (2 * half / 2 + 1 - 1) = 2 * half
    omega
  simp only [apply, hblock]
  rw [if_neg (by omega), if_neg Bool.false_ne_true]

/-- **With independent blocks every filter has an outcome**, unless there is no room for the spectrum of
its kernel. -/
theorem Has.outcome (h : f.Has made y block) (memory : ℕ) (x : Array ℝ) :
    f.outcome memory false x = .ok (independent (forward (circle block) y) block x, block) ∨
    ∃ k cause, f = .kernel k ∧ Room.forBins memory (k.samples.size + 1) = .error cause ∧
      f.outcome memory false x = .error (.noArray cause) := by
  obtain ⟨half, hhalf, hblock⟩ := h.exists_half
  have happly : f.apply (forward (circle block) y) false x =
      .ok (independent (forward (circle block) y) block x, block) := by
    rw [hblock]
    exact apply_forward f hhalf y x
  rw [Filter.outcome]
  cases h with
  | @kernel k _ =>
    obtain ⟨cause, hroom, hbins⟩ | ⟨-, hbins⟩ := bins_kernel k <;> rw [hbins]
    · exact .inr ⟨k, cause, rfl, hroom, rfl⟩
    · exact .inl happly
  | bare _ _ => exact .inl happly

end Filter

namespace Session

/-- A reel is filtered, and **what is left in it**. No other reel changes. -/
structure Leaves (reel : ℕ) (f : Filter ℝ) (overlapAdd : Given Bool) (s : Studio ℝ) (r : Reel ℝ)
    (z : Array ℝ) : Prop where
  before : s.reels[reel]? = some r
  result : (convolve reel f overlapAdd s).1.result = .ok ()
  reels : (convolve reel f overlapAdd s).2.reels = s.reels.setIfInBounds reel { r with samples := z }

variable {made : List (Kernel ℝ)} {s : Studio ℝ} {f : Filter ℝ} {y : Array ℝ} {block : ℕ}

theorem Leaves.unique {reel : ℕ} {overlapAdd : Given Bool} {r : Reel ℝ} {z z' : Array ℝ}
    (h : Leaves reel f overlapAdd s r z) (h' : Leaves reel f overlapAdd s r z') : z = z' := by
  have hlt := (Array.getElem?_eq_some_iff.1 h.before).1
  have hreel := congrArg (fun reels : Reels ℝ => reels[reel]?) (h.reels.symm.trans h'.reels)
  simp only [Array.getElem?_setIfInBounds_self_of_lt hlt, Option.some.injEq, Reel.mk.injEq] at hreel
  exact hreel.1

/-- **A reel that is filtered by independent blocks** becomes the circular convolution of its blocks. -/
theorem isCircular_of_leaves (hs : Studio.Reached made s) (hf : f.Has made y block)
    {overlapAdd : Given Bool} (hover : overlapAdd.holds = false) {reel : ℕ} {r : Reel ℝ}
    (hr : s.reels[reel]? = some r) :
    (∃ z, IsCircular block r.samples y z ∧ Leaves reel f overlapAdd s r z) ∨
    ∃ k cause, f = .kernel k ∧ Room.forBins s.memory (k.samples.size + 1) = .error cause ∧
      (convolve reel f overlapAdd s).1.result = .error (.noArray cause) ∧
      (convolve reel f overlapAdd s).2.reels = s.reels := by
  obtain h | ⟨k, cause, hk, hroom, h⟩ := hf.outcome s.memory r.samples <;> rw [← hover] at h
  · obtain ⟨half, hhalf, rfl⟩ := hf.exists_half
    obtain ⟨hresult, hreels⟩ := convolve_of_outcome hs hf.isMade hr overlapAdd h
    exact .inl ⟨_, isCircular_independent hhalf _ y, hr, hresult, hreels⟩
  · exact .inr ⟨k, cause, hk, hroom, convolve_of_fault hs hf.isMade hr overlapAdd h⟩

/-- **What the circular convolution of a buffer tells**: an impulse leaves the buffer, padded, and where a
reel has the same block, filtering leaves the same block in it. -/
theorem independent_of_isCircular (hf : f.Has made y block) {overlapAdd : Given Bool}
    (hover : overlapAdd.holds = false) {x z : Array ℝ} (hz : IsCircular block x y z) :
    (IsImpulse y → ∀ i, z.getD i 0 = x.getD i 0) ∧
      ∀ made' s' reel' r' z', Studio.Reached made' s' → f.Has made' y block →
        Leaves reel' f overlapAdd s' r' z' →
          ∀ q, EqInBlock block q x r'.samples → EqInBlock block q z z' := by
  obtain ⟨half, hhalf, hblock⟩ := hf.exists_half
  refine ⟨fun hy => hz.eq_of_isImpulse hy (by omega), ?_⟩
  intro made' s' reel' r' z' hs' hf' hleaves' q hq
  obtain ⟨z'', hz'', hleaves''⟩ | ⟨k, cause, -, -, hresult, -⟩ :=
    isCircular_of_leaves hs' hf' hover hleaves'.before
  · -- what is left is determined, so it is the circular convolution there too
    obtain rfl := hleaves'.unique hleaves''
    exact hz.block_eq hz'' hq
  · rw [hleaves'.result] at hresult
    cases hresult

/-- **Independent blocks give circular convolutions**, in every studio that can be reached and however
the kernel is given: the reel becomes the circular convolution of its blocks; an impulse leaves it as
it is, padded; and the blocks are independent: where another reel has the same block, filtering
leaves the same block in it. Only if the studio has no room for the spectrum of a kernel is the filter
refused, and then no reel changes. -/
theorem convolve_independent (hs : Studio.Reached made s) (hf : f.Has made y block)
    {overlapAdd : Given Bool} (hover : overlapAdd.holds = false) {reel : ℕ} {r : Reel ℝ}
    (hr : s.reels[reel]? = some r) :
    (∃ z, IsCircular block r.samples y z ∧ Leaves reel f overlapAdd s r z ∧
      (IsImpulse y → ∀ i, z.getD i 0 = r.samples.getD i 0) ∧
      ∀ made' s' reel' r' z', Studio.Reached made' s' → f.Has made' y block →
        Leaves reel' f overlapAdd s' r' z' →
          ∀ q, EqInBlock block q r.samples r'.samples → EqInBlock block q z z') ∨
    ∃ k cause, f = .kernel k ∧ Room.forBins s.memory (k.samples.size + 1) = .error cause ∧
      (convolve reel f overlapAdd s).1.result = .error (.noArray cause) ∧
      (convolve reel f overlapAdd s).2.reels = s.reels :=
  (isCircular_of_leaves hs hf hover hr).imp_left fun ⟨z, hz, hleaves⟩ =>
    ⟨z, hz, hleaves, independent_of_isCircular hf hover hz⟩

/-- The bare spectrum of an impulse, with blocks of four, leaves a reel of five samples padded to
eight. -/
theorem convolve_independent_impulse : ∃ (f : Filter ℝ) (r : Reel ℝ) (s : Studio ℝ) (z : Array ℝ),
    f = .bare (forward (circle 4) #[1, 0, 0]) ∧ r.samples = #[1, 2, 3, 4, 5] ∧ s.reels = #[r] ∧
    Leaves 0 f (.value false) s r z ∧ z.size = 8 ∧ ∀ i, z.getD i 0 = r.samples.getD i 0 := by
  let r : Reel ℝ := ⟨#[1, 2, 3, 4, 5], 2, by simp [Scalar.le]⟩
  obtain ⟨k, s, -, hs, hreels, -⟩ := Studio.exists_reached (x := (#[1] : Array ℝ)) (by simp) r 0
  have hr : s.reels[0]? = some r := by simp [hreels]
  have hf : Filter.Has [k] (.bare (forward (circle 4) #[1, 0, 0])) #[1, 0, 0] 4 :=
    .bare (by decide) (by simp)
  have hy : IsImpulse #[1, 0, 0] := by
    intro i
    rcases i with _ | _ | _ | i <;> simp
  obtain ⟨z, hz, hleaves, hkeeps, -⟩ | ⟨k', cause, hk', -⟩ :=
    convolve_independent hs hf (show (Given.value false).holds = false from rfl) hr
  · have hsize : z.size = 8 := by
      rw [hz.size, Nat.ceilDiv_eq_add_pred_div, show r.samples.size = 5 from rfl]
    exact ⟨_, r, s, z, rfl, rfl, hreels, hleaves, hsize, hkeeps hy⟩
  · cases hk'

/-- **Given room for the spectrum of its kernel, the filter leaves the circular convolution**, and nothing
else can happen. A bare spectrum needs no room. -/
theorem convolve_circular_of_room (hs : Studio.Reached made s) (hf : f.Has made y block)
    {overlapAdd : Given Bool} (hover : overlapAdd.holds = false) {reel : ℕ} {r : Reel ℝ}
    (hr : s.reels[reel]? = some r)
    (hroom : ∀ k, f = .kernel k → Room.forBins s.memory (k.samples.size + 1) = .ok ()) :
    ∃ z, IsCircular block r.samples y z ∧ Leaves reel f overlapAdd s r z ∧
      (IsImpulse y → ∀ i, z.getD i 0 = r.samples.getD i 0) ∧
      ∀ made' s' reel' r' z', Studio.Reached made' s' → f.Has made' y block →
        Leaves reel' f overlapAdd s' r' z' →
          ∀ q, EqInBlock block q r.samples r'.samples → EqInBlock block q z z' := by
  obtain ⟨z, hz, hleaves⟩ | ⟨k, cause, hk, hfull, -⟩ := isCircular_of_leaves hs hf hover hr
  · exact ⟨z, hz, hleaves, independent_of_isCircular hf hover hz⟩
  · rw [hroom k hk] at hfull
    cases hfull

end Session

end Polyphony
