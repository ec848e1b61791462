import Polyphony.Proofs.Nearest
import Polyphony.Proofs.Sound.Words

/-!
# Samples as words, in exact arithmetic

The word of a sample is the sample, clipped and scaled, without its fraction. So no word leaves the range,
and what is read back is nearer to zero than the sample was, by less than one step.

* `Pcm.code_eq`: the word of a sample.
* `Pcm.code_mono`, `Pcm.code_neg`: words keep the order, and do not see the sign.
* `Pcm.quantization`: **what is written for samples and read back.**
-/

namespace Polyphony

open Exact
open Scalar (clip)

variable {x y : ℝ}

/-! ### Clipping -/

namespace Exact

theorem clip_eq (x : ℝ) : clip x = max (-1) (min x 1) := by
  unfold clip
  simp only [one_lit, lt_iff]
  split_ifs with hlow hhigh
  · exact (max_eq_left ((min_le_left x 1).trans hlow.le)).symm
  · rw [min_eq_right hhigh.le, max_eq_right (by norm_num)]
  · rw [min_eq_left (not_lt.1 hhigh), max_eq_right (not_lt.1 hlow)]

theorem clip_mono : Monotone (clip : ℝ → ℝ) := by
  intro x y h
  rw [clip_eq, clip_eq]
  exact max_le_max le_rfl (min_le_min h le_rfl)

theorem clip_neg (x : ℝ) : clip (-x) = -clip x := by
  rw [clip_eq, clip_eq, ← min_neg_neg, ← max_neg_neg, neg_neg, min_max_distrib_left]
  rw [min_comm 1 (-x), min_eq_right (show (-1 : ℝ) ≤ 1 by norm_num), max_comm]

theorem abs_clip_le (x : ℝ) : |clip x| ≤ 1 := by
  rw [clip_eq, abs_le]
  exact ⟨le_max_left _ _, max_le (by norm_num) (min_le_right _ _)⟩

end Exact

/-! ### Words -/

namespace Pcm

theorem fullScale_eq : (fullScale : ℝ) = 32767 := by
  unfold fullScale
  norm_num

/-- **The word of a sample.** -/
theorem code_eq (x : ℝ) : code x = towardZero (32767 * clip x) := by
  show towardZero (clip x * fullScale) = _
  rw [fullScale_eq, mul_comm]

/-- **Words keep the order.** -/
theorem code_mono : Monotone (code : ℝ → ℤ) := by
  intro x y h
  rw [code_eq, code_eq]
  exact towardZero_mono (mul_le_mul_of_nonneg_left (clip_mono h) (by norm_num))

/-- **Words do not see the sign.** -/
theorem code_neg (x : ℝ) : code (-x) = -code x := by
  rw [code_eq, code_eq, clip_neg, mul_neg, towardZero_neg]

theorem code_zero : code (0 : ℝ) = 0 := by
  have h := code_neg 0
  rw [neg_zero] at h
  omega

theorem abs_code (x : ℝ) : |code x| = ⌊32767 * |clip x|⌋ := by
  rw [code_eq, abs_towardZero, abs_mul, abs_of_pos (by norm_num)]

theorem abs_code_le (x : ℝ) : |code x| ≤ 32767 := by
  have hclip := abs_clip_le x
  rw [abs_code]
  exact Int.floor_le_iff.2 (by push_cast; linarith)

theorem fits_code (x : ℝ) : Fits (code x) := by
  obtain ⟨hlow, hhigh⟩ := abs_le.1 (abs_code_le x)
  exact ⟨by omega, hhigh⟩

/-- What is written for samples is read as their words. -/
theorem words_encode (xs : List ℝ) : words (encode xs) = xs.map code := by
  rw [encode_eq, words_flatMap (List.forall_mem_map.2 fun x _ => fits_code x)]

theorem ofInt_eq (w : ℤ) : (ofInt w : ℝ) = w := by
  cases w with
  | ofNat n => exact (Int.cast_natCast n).symm
  | negSucc n => exact (Int.cast_negSucc n).symm

/-! ### What is read back -/

/-- **A word is less than one step from its sample**, which is clipped before. -/
theorem abs_code_div_sub_lt (x : ℝ) : |(code x : ℝ) / 32767 - clip x| < 1 / 32767 := by
  have hscaled : (code x : ℝ) / 32767 - clip x = -(32767 * clip x - code x) / 32767 := by ring
  rw [hscaled, abs_div, abs_neg, abs_of_pos (show (0 : ℝ) < 32767 by norm_num), code_eq]
  exact div_lt_div_of_pos_right (abs_sub_towardZero_lt _) (by norm_num)

/-- A word has the sign of its sample, or none. -/
theorem mul_code_nonneg (x : ℝ) : 0 ≤ x * code x := by
  rcases le_total 0 x with h | h
  · have hcode : 0 ≤ code x := code_zero ▸ code_mono h
    exact mul_nonneg h (by exact_mod_cast hcode)
  · have hcode : code x ≤ 0 := code_zero ▸ code_mono h
    exact mul_nonneg_of_nonpos_of_nonpos h (by exact_mod_cast hcode)

/-- **What is written for samples and read back.** The bytes are two for each sample and tell its word, which
does not leave the range and is what is left of the sample, clipped and scaled, when its fraction is taken
away; words keep the order and do not see the sign. A kernel of the bytes holds numbers that are less than one
step from the clipped samples and never of the opposite sign. -/
theorem quantization (xs : List ℝ) :
    (encode xs).length = 2 * xs.length ∧ words (encode xs) = xs.map code ∧
      (∀ x : ℝ, (-32767 ≤ code x ∧ code x ≤ 32767) ∧
        |(code x : ℝ)| ≤ 32767 * |max (-1) (min x 1)| ∧ 32767 * |max (-1) (min x 1)| < |(code x : ℝ)| + 1 ∧
        code (-x) = -code x) ∧
      (∀ x y : ℝ, x ≤ y → code x ≤ code y) ∧
      (xs ≠ [] → ∀ (id : ℕ) (name : Option String), ∃ k : Kernel ℝ, Kernel.ofPcm id (encode xs) name = .ok k ∧
        List.Forall₂ (fun x y => |y - max (-1) (min x 1)| < 1 / 32767 ∧ 0 ≤ x * y) xs k.samples.toList) := by
  refine ⟨length_encode xs, words_encode xs, fun x => ⟨abs_le.1 (abs_code_le x), ?_, ?_, code_neg x⟩,
    fun x y h => code_mono h, fun hne id name => ?_⟩
  · rw [← clip_eq, ← Int.cast_abs, abs_code]
    exact Int.floor_le _
  · rw [← clip_eq, ← Int.cast_abs, abs_code]
    exact Int.lt_floor_add_one _
  · obtain ⟨k, hk, hsamples⟩ :=
      Kernel.exists_ofPcm (α := ℝ) id (length_encode_mod_two xs) (encode_ne_nil hne) name
    refine ⟨k, hk, ?_⟩
    rw [hsamples, words_encode, List.map_map, List.forall₂_map_right_iff, List.forall₂_same]
    intro x _
    have hread : (ofInt (code x) : ℝ) / fullScale = code x / 32767 := by rw [ofInt_eq, fullScale_eq]
    show |(ofInt (code x) : ℝ) / fullScale - max (-1) (min x 1)| < _ ∧
      0 ≤ x * ((ofInt (code x) : ℝ) / fullScale)
    rw [hread, ← clip_eq, ← mul_div_assoc]
    exact ⟨abs_code_div_sub_lt x, div_nonneg (mul_code_nonneg x) (by norm_num)⟩

/-- Half of full scale, and twice of it below zero. -/
theorem quantization_half : encode [(1 / 2 : ℝ), -2] = [255, 63, 1, 128] ∧
    ((-2 : ℝ) ≤ 1 / 2 ∧ code (-2 : ℝ) ≤ code (1 / 2 : ℝ)) ∧
    ([(1 / 2 : ℝ), -2] ≠ [] ∧ ∃ k : Kernel ℝ, Kernel.ofPcm 0 [255, 63, 1, 128] none = .ok k ∧
      List.Forall₂ (fun x y => |y - max (-1) (min x 1)| < 1 / 32767 ∧ 0 ≤ x * y) [(1 / 2 : ℝ), -2]
        k.samples.toList) := by
  have hhalf : code (1 / 2 : ℝ) = 16383 := by
    rw [code_eq, clip_eq, min_eq_left (by norm_num), max_eq_right (by norm_num), towardZero,
      if_pos (by norm_num), Int.floor_eq_iff]
    norm_num
  have htwice : code (-2 : ℝ) = -32767 := by
    rw [code_eq, clip_eq, max_eq_left ((min_le_left _ _).trans (by norm_num))]
    exact_mod_cast towardZero_intCast (32767 * -1)
  have hbytes : encode [(1 / 2 : ℝ), -2] = [255, 63, 1, 128] := by
    rw [encode_eq, List.map_cons, List.map_cons, List.map_nil, hhalf, htwice]
    decide
  obtain ⟨-, -, -, hmono, hkernel⟩ := quantization [1 / 2, -2]
  rw [hbytes] at hkernel
  exact ⟨hbytes, ⟨by norm_num, hmono _ _ (by norm_num)⟩, by simp, hkernel (by simp) 0 none⟩

end Pcm

end Polyphony
