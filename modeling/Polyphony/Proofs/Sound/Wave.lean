import Polyphony.Proofs.Sound.Quantization
import Polyphony.Sound.Wave

/-!
# Wave files and raw words, in exact arithmetic

A wave file and the raw bytes hold a word for each sample. The one is scaled by `32768` and rounded down, the
other by `32767` and toward zero, so they are not the same, but never far apart.

* `Wave.file?_eq`: what a file consists of, and when there is none.
* `Wave.code_sub_code`, `Wave.code_sub_code_of_neg`: **the words of one sample**, above and below zero.
* `Wave.agrees_with_raw`: both formats, for a reel.
-/

namespace Polyphony.Wave

open Exact
open Scalar (clip)

variable {x c : ℝ}

/-! ### The word of a sample -/

theorem nearest_eq (v : ℝ) : nearest v = Exact.nearest v := by
  have hbelow : ((Scalar.toInt? (Scalar.floor v)).toOption.getD 0 : ℤ) = ⌊v⌋ := towardZero_intCast ⌊v⌋
  have hrest : v - Scalar.floor v = Int.fract v := rfl
  have hhalf : (0.5 : ℝ) = 1 / 2 := by norm_num
  unfold nearest Exact.nearest
  simp only [hbelow, hrest, hhalf, lt_iff, Int.even_iff]

/-- **The word of a sample**, as the library for sound files computes it. -/
theorem code_eq (x : ℝ) : code x =
    if 2147483647 ≤ 2147483648 * clip x then 32767 else Exact.nearest (2147483648 * clip x) / 65536 := by
  have hscale : clip x * (2147483648.0 : ℝ) = 2147483648 * clip x := by
    rw [mul_comm]
    norm_num
  have hmost : (2147483647.0 : ℝ) = 2147483647 := by norm_num
  unfold code
  simp only [hscale, hmost, le_iff, nearest_eq]

/-! ### Two scales -/

theorem clip_mem (hx : 0 ≤ x) : 0 ≤ clip x ∧ clip x ≤ 1 := by
  rw [clip_eq]
  exact ⟨le_max_of_le_right (le_min hx zero_le_one), max_le (by norm_num) (min_le_right _ _)⟩

theorem raw_eq (hx : 0 ≤ x) : Pcm.code x = ⌊32767 * clip x⌋ := by
  rw [Pcm.code_eq, towardZero, if_pos (mul_nonneg (by norm_num) (clip_mem hx).1)]

/-- The larger scale leads to at least as much, and to less than two steps more. -/
theorem nearest_scaled (hc : 0 ≤ c) (hone : c ≤ 1) :
    65536 * ⌊32767 * c⌋ ≤ Exact.nearest (2147483648 * c) ∧
      Exact.nearest (2147483648 * c) ≤ 65536 * (⌊32767 * c⌋ + 2) := by
  have hle := Int.floor_le (32767 * c)
  have hlt := Int.lt_floor_add_one (32767 * c)
  refine ⟨le_nearest ?_, nearest_le ?_⟩ <;> push_cast <;> linarith

/-- **Above zero** the word of a wave file is the raw word or the next one. -/
theorem code_sub_code (hx : 0 ≤ x) : 0 ≤ code x - Pcm.code x ∧ code x - Pcm.code x ≤ 1 := by
  obtain ⟨hc, hone⟩ := clip_mem hx
  obtain ⟨hleast, -⟩ := nearest_scaled hc hone
  rw [raw_eq hx, code_eq]
  generalize clip x = c at *
  have hle := Int.floor_le (32767 * c)
  have hlt := Int.lt_floor_add_one (32767 * c)
  have hraw : ⌊32767 * c⌋ ≤ 32767 := Int.floor_le_iff.2 (by push_cast; linarith)
  split_ifs with hcut
  · have hnear : 32766 ≤ ⌊32767 * c⌋ := Int.le_floor.2 (by push_cast; linarith)
    omega
  · have hmost : Exact.nearest (2147483648 * c) ≤ 2147483647 := nearest_le (by push_cast; linarith)
    -- near full scale there is no third word left, below it the fraction is too small for one
    rcases le_or_gt c (65535 / 65536) with hsmall | hlarge
    · have hnext : Exact.nearest (2147483648 * c) ≤ 65536 * (⌊32767 * c⌋ + 2) - 1 :=
        nearest_le (by push_cast; linarith)
      omega
    · have hnear : 32766 ≤ ⌊32767 * c⌋ := Int.le_floor.2 (by push_cast; linarith)
      omega

/-- **Below zero** the word of a wave file is at most two steps lower. -/
theorem code_sub_code_of_neg (hx : x < 0) : 0 ≤ Pcm.code x - code x ∧ Pcm.code x - code x ≤ 2 := by
  have hneg : 0 ≤ -x := by linarith
  obtain ⟨hc, hone⟩ := clip_mem hneg
  obtain ⟨hleast, hmost⟩ := nearest_scaled hc hone
  have hraw : Pcm.code x = -⌊32767 * clip (-x)⌋ := by rw [← raw_eq hneg, Pcm.code_neg, neg_neg]
  have hclip : clip x = -clip (-x) := by rw [clip_neg, neg_neg]
  rw [hraw, code_eq, hclip]
  generalize clip (-x) = c at *
  rw [if_neg (by linarith), mul_neg, nearest_neg]
  omega

/-! ### Files -/

theorem length_header (rate samples : ℕ) : (header rate samples).length = 44 := rfl

theorem fits_code (x : ℝ) : Pcm.Fits (code x) := by
  obtain ⟨hlow, -⟩ := abs_le.1 (abs_clip_le x)
  rw [code_eq]
  split_ifs with hcut
  · exact ⟨by norm_num, le_rfl⟩
  · have hleast : -2147483648 ≤ Exact.nearest (2147483648 * clip x) := le_nearest (by push_cast; linarith)
    have hmost : Exact.nearest (2147483648 * clip x) ≤ 2147483647 := nearest_le (by push_cast; linarith)
    exact ⟨by omega, by omega⟩

/-- The rate that a file notes is cut to a whole number, and has to be a positive one of 31 digits. -/
theorem fileRate?_eq (r : Reel ℝ) : fileRate? r.rate =
    if 2147483647 < ⌊r.rate⌋ then .error (.rateTooLarge ⌊r.rate⌋)
    else if ⌊r.rate⌋ < 1 then .error .rateTooSmall
    else .ok ⌊r.rate⌋.toNat := by
  have hpos : 0 < r.rate := by
    have h := r.positive
    rw [zero_lit] at h
    exact not_le.1 (of_decide_eq_false h)
  have hhertz : hertz? r.rate = .ok ⌊r.rate⌋ := by
    show Except.ok (towardZero r.rate) = _
    rw [towardZero, if_pos hpos.le]
  unfold fileRate?
  rw [hhertz]
  split_ifs with hlarge hsmall
  · exact if_pos hlarge
  · exact (if_neg hlarge).trans (if_pos hsmall)
  · exact (if_neg hlarge).trans (if_neg hsmall)

/-- **What a file consists of**: a header, and the words of all samples. -/
theorem file?_eq (r : Reel ℝ) (hsmall : 1 ≤ ⌊r.rate⌋) (hlarge : ⌊r.rate⌋ ≤ 2147483647) :
    file? r = .ok (header ⌊r.rate⌋.toNat r.samples.size ++
      (r.samples.toList.map code).flatMap Pcm.wordBytes) := by
  have hrate := fileRate?_eq r
  rw [if_neg (not_lt.2 hlarge), if_neg (not_lt.2 hsmall)] at hrate
  rw [file?, hrate, List.flatMap_map]
  rfl

/-- **Wave files and raw bytes agree.** If the rate, cut to a whole number, is one that a file can note, there
is a file; behind its header it holds as many words as the raw bytes, one for each sample. With another rate
there is none. Above zero the word in the file is the raw one or the next; below zero it is at most two
lower. -/
theorem agrees_with_raw (r : Reel ℝ) :
    (1 ≤ ⌊r.rate⌋ ∧ ⌊r.rate⌋ ≤ 2147483647 → ∃ bytes, file? r = .ok bytes ∧
      bytes.length = 44 + (Pcm.encode r.samples.toList).length ∧
      Pcm.words (bytes.drop 44) = r.samples.toList.map code) ∧
    (¬ (1 ≤ ⌊r.rate⌋ ∧ ⌊r.rate⌋ ≤ 2147483647) → file? r =
      .error (if ⌊r.rate⌋ < 1 then .rateTooSmall else .rateTooLarge ⌊r.rate⌋)) ∧
    (Pcm.encode r.samples.toList).length = 2 * r.samples.size ∧
    Pcm.words (Pcm.encode r.samples.toList) = r.samples.toList.map Pcm.code ∧
    ∀ x : ℝ, (0 ≤ x → 0 ≤ code x - Pcm.code x ∧ code x - Pcm.code x ≤ 1) ∧
      (x < 0 → 0 ≤ Pcm.code x - code x ∧ Pcm.code x - code x ≤ 2) := by
  refine ⟨fun ⟨hsmall, hlarge⟩ => ⟨_, file?_eq r hsmall hlarge, ?_, ?_⟩, fun hrate => ?_,
    Pcm.length_encode _, Pcm.words_encode _, fun x => ⟨code_sub_code, code_sub_code_of_neg⟩⟩
  · rw [List.length_append, length_header, Pcm.length_encode, Pcm.length_flatMap_wordBytes, List.length_map]
  · rw [List.drop_left' (length_header _ _),
      Pcm.words_flatMap (List.forall_mem_map.2 fun x _ => fits_code x)]
  · have hfail : fileRate? r.rate =
        .error (if ⌊r.rate⌋ < 1 then .rateTooSmall else .rateTooLarge ⌊r.rate⌋) := by
      rw [fileRate?_eq]
      split_ifs <;> first | rfl | omega
    rw [file?, hfail]
    rfl

/-- Two samples at one hertz, and at twice the greatest rate. -/
theorem agrees_with_raw_hertz : ∃ r s : Reel ℝ, r.samples = #[1 / 2, -1 / 2] ∧ r.rate = 1 ∧
    (∃ bytes, file? r = .ok bytes ∧ bytes.length = 44 + (Pcm.encode r.samples.toList).length ∧
      Pcm.words (bytes.drop 44) = r.samples.toList.map code) ∧
    (0 ≤ code (1 / 2 : ℝ) - Pcm.code (1 / 2 : ℝ) ∧ code (1 / 2 : ℝ) - Pcm.code (1 / 2 : ℝ) ≤ 1) ∧
    (0 ≤ Pcm.code (-1 / 2 : ℝ) - code (-1 / 2 : ℝ) ∧ Pcm.code (-1 / 2 : ℝ) - code (-1 / 2 : ℝ) ≤ 2) ∧
    s.rate = 4294967296 ∧ file? s = .error (.rateTooLarge 4294967296) := by
  let r : Reel ℝ := ⟨#[1 / 2, -1 / 2], 1, decide_eq_false (by norm_num)⟩
  let s : Reel ℝ := ⟨#[1 / 2, -1 / 2], 4294967296, decide_eq_false (by norm_num)⟩
  have hone : ⌊r.rate⌋ = 1 := Int.floor_one
  have hlarge : ⌊s.rate⌋ = 4294967296 := Int.floor_intCast 4294967296
  have hfail := (agrees_with_raw s).2.1 (by rw [hlarge]; norm_num)
  rw [hlarge] at hfail
  obtain ⟨hfile, -, -, -, hwords⟩ := agrees_with_raw r
  exact ⟨r, s, rfl, rfl, hfile (by rw [hone]; norm_num), (hwords _).1 (by norm_num),
    (hwords _).2 (by norm_num), rfl, hfail⟩

/-- **At less than one hertz there is no file**, but there are raw words. -/
theorem raw_without_file : ∃ r : Reel ℝ, r.samples = #[1] ∧ r.rate = 1 / 2 ∧
    (¬ ∃ bytes, file? r = .ok bytes) ∧ (Pcm.words (Pcm.encode r.samples.toList)).length = 1 := by
  let r : Reel ℝ := ⟨#[1], 1 / 2, decide_eq_false (by norm_num)⟩
  have hrate : ⌊r.rate⌋ = 0 := Int.floor_eq_zero_iff.2 ⟨by norm_num, by norm_num⟩
  have hfail : file? r = .error .rateTooSmall := by
    rw [file?, fileRate?_eq, hrate]
    rfl
  refine ⟨r, rfl, rfl, ?_, ?_⟩
  · rintro ⟨bytes, hbytes⟩
    rw [hfail] at hbytes
    cases hbytes
  · rw [Pcm.words_encode, List.length_map]
    rfl

end Polyphony.Wave
