import Polyphony.Proofs.Binary64
import Polyphony.Proofs.Binary64.Value
import Polyphony.Proofs.Sound.Quantization

/-!
# Words that are decoded and encoded again

A word is decoded to the double next to the quotient by full scale, and encoded by a rounded product whose
fraction is dropped. Here it is shown that both roundings together are undone, so that nothing is lost but the
lowest word, which has no counterpart above zero.

* `Pcm.rounded_fraction_mul`: **dividing by full scale and multiplying again**, each time with rounding, gives
  back the word.
* `Pcm.code_decoded`: so does decoding and encoding, on doubles.
* `Kernel.reencoding`: the bytes of a kernel.
-/

namespace Polyphony

open Binary64 Exact
open Float.Model (UnpackedFloat)
open Float.Model.UnpackedFloat (Sign)
open Scalar (clip)

namespace Pcm

variable {w j : ℕ}

/-! ### Fractions of full scale -/

/-- A power of two, counted from the last place of a fraction. -/
theorem pow_eq_place (j : ℕ) : (2 : ℝ) ^ j = 2 ^ 67 * 2 ^ ((j : ℤ) - 67) := by
  rw [← two_zpow_add_natCast, Nat.cast_ofNat, sub_add_cancel, zpow_natCast]

/-- What is below full scale has its first digit at one of 15 places. -/
theorem le_of_pow_le (hlow : 2 ^ j ≤ w) (hw : w < 32767) : j ≤ 14 := by
  have hlt : 2 ^ j < 2 ^ 15 := hlow.trans_lt (hw.trans (by norm_num))
  exact Nat.le_of_lt_succ ((Nat.pow_lt_pow_iff_right one_lt_two).1 hlt)

/-- Full scale has 15 digits, so a fraction of it has its first digit 15 places behind that of the word. -/
theorem lastPlace_fraction (hlow : 2 ^ j ≤ w) (hhigh : w < 2 ^ (j + 1)) (hw : w < 32767) :
    lastPlace (w / 32767 : ℝ) = j - 67 := by
  have hpow : 2 ^ j ≤ 2 ^ 14 := Nat.pow_le_pow_right two_pos (le_of_pow_le hlow hw)
  have hplace := pow_eq_place j
  have habs : |(w / 32767 : ℝ)| = w / 32767 := abs_of_nonneg (by positivity)
  rw [pow_succ] at hhigh
  have hfirst : lastPlace (w / 32767 : ℝ) = (j : ℤ) - 67 + (52 : ℕ) - 52 := by
    refine lastPlace_of_between ?_ ?_ (by omega)
    · have hword : (2 : ℝ) ^ j ≤ w := by exact_mod_cast hlow
      rw [habs, le_div_iff₀ (by norm_num), two_zpow_add_natCast]
      linarith
    · have hword : w * 2 ^ 14 < 2 ^ j * 32767 := by omega
      have hword' : (w : ℝ) * 2 ^ 14 < 2 ^ j * 32767 := by exact_mod_cast hword
      rw [habs, div_lt_iff₀ (by norm_num), show (j : ℤ) - 67 + (52 : ℕ) + 1 = j - 67 + (53 : ℕ) by omega,
        two_zpow_add_natCast]
      linarith
  omega

/-- Behind the first digit of the word there is room for the error of the quotient. -/
theorem rounded_fraction_mul_of_lt (hlow : 2 ^ j < w) (hhigh : w < 2 ^ (j + 1)) (hw : w < 32767) :
    rounded (rounded (w / 32767) * 32767) = w := by
  have hj := le_of_pow_le hlow.le hw
  have hpow : (2 : ℝ) ^ j ≤ 2 ^ 14 := pow_le_pow_right₀ one_le_two hj
  have hplace := pow_eq_place j
  have hpos := two_zpow_pos ((j : ℤ) - 67)
  have hlow' : (2 : ℝ) ^ j + 1 ≤ w := by exact_mod_cast hlow
  have hhigh' : (w : ℝ) + 1 ≤ 2 ^ (j + 1) := by exact_mod_cast hhigh
  have hquotient := abs_sub_rounded_le (w / 32767 : ℝ)
  rw [lastPlace_fraction hlow.le hhigh hw] at hquotient
  obtain ⟨hleast, hmost⟩ := abs_le.1 hquotient
  have hproduct : |rounded (w / 32767) * 32767 - w| < 2 ^ 14 * 2 ^ ((j : ℤ) - 67) := by
    rw [abs_lt]
    constructor <;> linarith
  obtain ⟨hleast, hmost⟩ := abs_lt.1 hproduct
  -- the product is less than one from the word, so it has its first digit at the same place
  have hlast : lastPlace (rounded (w / 32767) * 32767) = j - 52 := by
    refine lastPlace_of_between ?_ ?_ (by omega)
    · rw [abs_of_nonneg (by linarith), zpow_natCast]
      linarith
    · rw [abs_of_nonneg (by linarith), ← Nat.cast_add_one, zpow_natCast]
      linarith
  have hhalf : (2 : ℝ) ^ (-((52 - j : ℕ) : ℤ)) = 2 ^ 15 * 2 ^ ((j : ℤ) - 67) := by
    rw [← two_zpow_add_natCast]
    congr 1
    omega
  refine rounded_eq_natCast_of_near (n := 52 - j) (by omega) ?_
  rw [hhalf]
  linarith

/-- A power of two has neighbours below that are twice as near. The quotient is rounded by a small part of a
place only, since the remainder of `2 ^ 67` by full scale is `128`. -/
theorem rounded_fraction_mul_pow (h : 2 ^ j < 32767) :
    rounded (rounded ((2 ^ j : ℕ) / 32767) * 32767) = (2 ^ j : ℕ) := by
  have hj := le_of_pow_le le_rfl h
  have hplace := pow_eq_place j
  have hpos := two_zpow_pos ((j : ℤ) - 67)
  have hquotient : rounded ((2 ^ j : ℕ) / 32767) = (4503737070518400 : ℤ) * 2 ^ ((j : ℤ) - 67) := by
    refine rounded_eq_of_near (lastPlace_fraction le_rfl (Nat.pow_lt_pow_right one_lt_two (by omega)) h) ?_
    push_cast
    rw [hplace, abs_lt]
    constructor <;> linarith
  have hproduct : rounded ((2 ^ j : ℕ) / 32767) * 32767 = (2 ^ 67 - 128) * 2 ^ ((j : ℤ) - 67) := by
    rw [hquotient]
    push_cast
    ring
  rw [hproduct]
  have hlast : lastPlace ((2 ^ 67 - 128) * 2 ^ ((j : ℤ) - 67)) = (j : ℤ) - 67 + (66 : ℕ) - 52 := by
    have habs : |(2 ^ 67 - 128) * (2 : ℝ) ^ ((j : ℤ) - 67)| = (2 ^ 67 - 128) * 2 ^ ((j : ℤ) - 67) :=
      abs_of_nonneg (mul_nonneg (by norm_num) hpos.le)
    refine lastPlace_of_between ?_ ?_ (by omega)
    · rw [habs, two_zpow_add_natCast]
      linarith
    · rw [habs, show (j : ℤ) - 67 + (66 : ℕ) + 1 = j - 67 + (67 : ℕ) by omega, two_zpow_add_natCast]
      linarith
  have hhalf : (2 : ℝ) ^ (-((53 - j : ℕ) : ℤ)) = 2 ^ 14 * 2 ^ ((j : ℤ) - 67) := by
    rw [← two_zpow_add_natCast]
    congr 1
    omega
  refine rounded_eq_natCast_of_near (n := 53 - j) (by omega) ?_
  push_cast
  rw [hhalf, hplace, abs_lt]
  constructor <;> linarith

/-- **Dividing a word by full scale and multiplying again** gives back the word. -/
theorem rounded_fraction_mul (h : w ≤ 32767) : rounded (rounded (w / 32767) * 32767) = w := by
  rcases h.eq_or_lt with rfl | hlt
  · have hone : ((32767 : ℕ) : ℝ) / 32767 = 1 := by norm_num
    rw [hone, rounded_eq_self isRepresentable_one, one_mul]
    exact rounded_eq_self (isRepresentable_natCast (n := 32767) (by norm_num))
  rcases w.eq_zero_or_pos with rfl | hpos
  · rw [Nat.cast_zero, zero_div, rounded_zero, zero_mul, rounded_zero]
  · have hlow := Nat.log2_self_le hpos.ne'
    have hhigh := Nat.lt_log2_self (n := w)
    rcases hlow.eq_or_lt with heq | hmore
    · have hpow := rounded_fraction_mul_pow (j := w.log2) (by omega)
      rwa [heq] at hpow
    · exact rounded_fraction_mul_of_lt hmore hhigh hlt

theorem rounded_intFraction_mul {w : ℤ} (h : |w| ≤ 32767) : rounded (rounded (w / 32767) * 32767) = w := by
  obtain ⟨n, rfl | rfl⟩ := w.eq_nat_or_neg
  · rw [Nat.abs_cast] at h
    rw [Int.cast_natCast]
    exact rounded_fraction_mul (by omega)
  · rw [abs_neg, Nat.abs_cast] at h
    rw [Int.cast_neg, Int.cast_natCast, neg_div, rounded_neg, neg_mul, rounded_neg,
      rounded_fraction_mul (by omega)]

theorem isRepresentable_fullScale : IsRepresentable 32767 := by
  exact_mod_cast isRepresentable_natCast (n := 32767) (by norm_num)

/-- **The lowest word alone is clipped.** -/
theorem rounded_clipped_fraction_mul {w : ℤ} (h : Fits w) :
    rounded (clip (rounded (w / 32767)) * 32767) = max w (-32767) := by
  obtain ⟨hleast, hmost⟩ := h
  rw [clip_eq]
  rcases hleast.eq_or_lt with rfl | hlt
  · have hbelow : rounded (((-32768 : ℤ) : ℝ) / 32767) ≤ -1 :=
      rounded_le isRepresentable_one.neg (by norm_num)
    rw [max_eq_left ((min_le_left _ _).trans hbelow), neg_one_mul, rounded_neg,
      rounded_eq_self isRepresentable_fullScale]
    norm_num
  · have hword : |w| ≤ 32767 := abs_le.2 ⟨by omega, hmost⟩
    have hfraction : |(w : ℝ) / 32767| ≤ 1 := by
      rw [abs_div, abs_of_pos (show (0 : ℝ) < 32767 by norm_num), div_le_one (by norm_num)]
      exact_mod_cast hword
    obtain ⟨hlow, hhigh⟩ := abs_le.1 (abs_rounded_le isRepresentable_one hfraction)
    rw [min_eq_left hhigh, max_eq_right hlow, rounded_intFraction_mul hword, max_eq_left]
    have hword' : -32767 ≤ w := by omega
    exact_mod_cast hword'

/-! ### Clipping and scaling doubles -/

variable {a : Float} {x : ℝ}

theorem denotes_fullScale : Denotes fullScale 32767 :=
  denotes_literal (m := 32767 * 2 ^ 38) (e := -38) (by norm_num) rfl (by norm_num)

/-- A double is clipped by comparing it. -/
theorem clip_double (a : Float) : clip a = if a < -1.0 then -1.0 else if 1.0 < a then 1.0 else a := by
  unfold clip
  simp only [show ∀ b c : Float, (Scalar.lt b c = true) = (b < c) from fun b c =>
    propext decide_eq_true_iff]

/-- **A finite double is clipped as the number it stands for.** -/
theorem denotes_clip (h : Denotes a x) : Denotes (clip a) (clip x) := by
  rw [clip_double, clip]
  simp only [h.lt_iff denotes_one.neg, denotes_one.lt_iff h, one_lit, lt_iff]
  split_ifs
  · exact denotes_one.neg
  · exact denotes_one
  · exact h

/-- Infinity is clipped to full scale, on either side. -/
theorem denotes_clip_infinity {s : Sign} (h : a.toModel.unpack = .infinity s) :
    Denotes (clip a) (signed s 1) := by
  cases s with
  | negative =>
    have hlow : a < -1.0 := lt_iff_compare.2 (by rw [h]; rfl)
    rw [clip_double, if_pos hlow]
    exact denotes_one.neg
  | positive =>
    have hlow : ¬ a < -1.0 := fun hlt => by
      rw [lt_iff_compare, h] at hlt
      cases hlt
    have hhigh : 1.0 < a := lt_iff_compare.2 (by rw [h]; rfl)
    rw [clip_double, if_neg hlow, if_pos hhigh]
    exact denotes_one

theorem fullScale_lt : (32767 : ℝ) < 2 ^ (1024 : ℤ) :=
  calc (32767 : ℝ) < 2 ^ (15 : ℤ) := by norm_num
    _ ≤ 2 ^ (1024 : ℤ) := two_zpow_le (by norm_num)

theorem abs_rounded_scaled_le (h : |x| ≤ 1) : |rounded (x * 32767)| ≤ 32767 := by
  refine abs_rounded_le isRepresentable_fullScale ?_
  rw [abs_mul, abs_of_pos (show (0 : ℝ) < 32767 by norm_num)]
  linarith

/-- **The word of a double** that is clipped to a number. -/
theorem code_of_denotes (h : Denotes (clip a) x) (hx : |x| ≤ 1) :
    code a = towardZero (rounded (x * 32767)) := by
  have hscaled := h.mul denotes_fullScale ((abs_rounded_scaled_le hx).trans_lt fullScale_lt)
  have hpart : Binary64.toInt? (clip a * fullScale) = .ok (towardZero (rounded (x * 32767))) := by
    rw [toInt?_of_isFinite hscaled.isFinite, hscaled.integerPart_eq]
  show (Binary64.toInt? (clip a * fullScale)).toOption.getD 0 = _
  rw [hpart]
  rfl

theorem abs_code_of_denotes_le (h : Denotes (clip a) x) (hx : |x| ≤ 1) : |code a| ≤ 32767 := by
  rw [code_of_denotes h hx, abs_towardZero]
  exact Int.floor_le_iff.2 (by push_cast; linarith [abs_rounded_scaled_le hx])

theorem code_of_notANumber (h : a.toModel.unpack = .notANumber) : code a = 0 := by
  have hlow : ¬ a < -1.0 := fun hlt => by
    rw [lt_iff_compare, h] at hlt
    cases hlt
  have hhigh : ¬ 1.0 < a := fun hlt => by
    rw [lt_iff_compare, h] at hlt
    cases hlt
  have hscaled : (clip a * fullScale).isNaN = true := by
    rw [clip_double, if_neg hlow, if_neg hhigh]
    show (Float.Model.pack (UnpackedFloat.mul .binary64 a.toModel.unpack _)).unpack.isNaN = true
    rw [h]
    rfl
  show (Binary64.toInt? (clip a * fullScale)).toOption.getD 0 = 0
  rw [Binary64.toInt?, if_pos hscaled]
  rfl

/-- **The word of every double fits**: an infinite one is clipped, and the undefined one is silence. -/
theorem abs_code_double_le (a : Float) : |code a| ≤ 32767 := by
  cases hunpack : a.toModel.unpack with
  | zero s => exact abs_code_of_denotes_le (denotes_clip (denotes_zero hunpack)) (abs_clip_le _)
  | finite s m e hm =>
    exact abs_code_of_denotes_le (denotes_clip (denotes_of_unpack _ hunpack)) (abs_clip_le _)
  | infinity s =>
    refine abs_code_of_denotes_le (denotes_clip_infinity hunpack) ?_
    rw [abs_signed, abs_one]
  | notANumber =>
    rw [code_of_notANumber hunpack]
    norm_num

/-! ### Decoding and encoding -/

theorem denotes_ofInt {w : ℤ} (h : Fits w) : Denotes (ofInt w) w := by
  obtain ⟨hleast, hmost⟩ := h
  cases w with
  | ofNat n =>
    have hn : n < 2 ^ 53 := by
      have : (Int.ofNat n) = n := rfl
      omega
    exact_mod_cast denotes_ofNat hn
  | negSucc n =>
    have hn : n + 1 < 2 ^ 53 := by omega
    rw [Int.cast_negSucc]
    exact (denotes_ofNat hn).neg

/-- What a word is decoded to. -/
theorem denotes_decoded {w : ℤ} (h : Fits w) : Denotes (ofInt w / fullScale) (rounded (w / 32767)) := by
  refine (denotes_ofInt h).div denotes_fullScale (by norm_num) (lt_of_le_of_lt ?_ fullScale_lt)
  refine abs_rounded_le isRepresentable_fullScale ?_
  have hword : |w| ≤ 32768 := abs_le.2 ⟨h.1, h.2.trans (by norm_num)⟩
  have hword' : |(w : ℝ)| ≤ 32768 := by exact_mod_cast hword
  rw [abs_div, abs_of_pos (show (0 : ℝ) < 32767 by norm_num), div_le_iff₀ (by norm_num)]
  linarith

/-- **Decoding and encoding** gives back every word but the lowest, which is clipped. -/
theorem code_decoded {w : ℤ} (h : Fits w) : code (ofInt w / fullScale : Float) = max w (-32767) := by
  rw [code_of_denotes (denotes_clip (denotes_decoded h)) (abs_clip_le _), rounded_clipped_fraction_mul h]
  exact_mod_cast towardZero_intCast (max w (-32767))

/-- Bytes in which the lowest word, `00 80`, is raised by one, wherever it stands, to `01 80`. -/
def raiseLowest : List UInt8 → List UInt8
  | low :: high :: rest =>
    (if low = 0x00 ∧ high = 0x80 then [0x01, 0x80] else [low, high]) ++ raiseLowest rest
  | rest => rest

theorem wordBytes_max (low high : UInt8) : wordBytes (max (ofBytes low high) (-32767)) =
    if low = 0x00 ∧ high = 0x80 then [0x01, 0x80] else [low, high] := by
  split_ifs with h
  · obtain ⟨rfl, rfl⟩ := h
    rfl
  · have hlow := low.toNat_lt
    have hhigh := high.toNat_lt
    have hother : ¬ (low.toNat = 0 ∧ high.toNat = 128) := fun hbytes =>
      h ⟨UInt8.toNat_inj.1 hbytes.1, UInt8.toNat_inj.1 hbytes.2⟩
    have hword : -32767 ≤ ofBytes low high := by
      unfold ofBytes
      dsimp only
      split <;> omega
    rw [max_eq_left hword, wordBytes_ofBytes]

theorem flatMap_max_words : ∀ {bytes : List UInt8}, bytes.length % 2 = 0 →
    (words bytes).flatMap (fun w => wordBytes (max w (-32767))) = raiseLowest bytes
  | [], _ => rfl
  | [_], h => by cases h
  | low :: high :: rest, h => by
    have hrest : rest.length % 2 = 0 := by
      simp only [List.length_cons] at h
      omega
    rw [words, List.flatMap_cons, wordBytes_max, flatMap_max_words hrest, raiseLowest]

/-- Words that are not the lowest stay. -/
theorem raiseLowest_flatMap {ws : List ℤ} (h : ∀ w ∈ ws, |w| ≤ 32767) :
    raiseLowest (ws.flatMap wordBytes) = ws.flatMap wordBytes := by
  have hfits : ∀ w ∈ ws, Fits w := fun w hw => by
    have := abs_le.1 (h w hw)
    exact ⟨by omega, this.2⟩
  rw [← flatMap_max_words (by rw [length_flatMap_wordBytes]; omega), words_flatMap hfits]
  refine List.flatMap_congr fun w hw => ?_
  rw [max_eq_left (abs_le.1 (h w hw)).1]

end Pcm

namespace Kernel

open Pcm

variable {bytes : List UInt8}

theorem encode_ofPcm (heven : bytes.length % 2 = 0) (hne : bytes ≠ []) (id : ℕ) (name : Option String) :
    ∃ k : Kernel Float, ofPcm id bytes name = .ok k ∧ encode k.samples.toList = raiseLowest bytes := by
  obtain ⟨k, hk, hsamples⟩ := exists_ofPcm (α := Float) id heven hne name
  refine ⟨k, hk, ?_⟩
  rw [hsamples, encode_eq, List.map_map, List.flatMap_map, ← flatMap_max_words heven]
  refine List.flatMap_congr fun w hw => ?_
  exact congrArg wordBytes (code_decoded (fits_of_mem_words w hw))

/-- **A kernel of bytes, encoded again.** Bytes make no kernel if there are none or one is left over; then the
fault is one of the file. Otherwise the samples of the kernel are encoded as the same bytes, except that the
lowest word is raised by one. So what samples are encoded as stays when it is decoded and encoded. -/
theorem reencoding (id : ℕ) (name : Option String) (bytes : List UInt8) :
    ((∃ fault : Fault Float, ofPcm id bytes name = .error fault ∧ fault.kind = .resource) ↔
      bytes = [] ∨ bytes.length % 2 ≠ 0) ∧
    (¬ (bytes = [] ∨ bytes.length % 2 ≠ 0) →
      ∃ k : Kernel Float, ofPcm id bytes name = .ok k ∧ encode k.samples.toList = raiseLowest bytes) ∧
    ∀ xs : List Float, xs ≠ [] →
      ∃ k : Kernel Float, ofPcm id (encode xs) name = .ok k ∧ encode k.samples.toList = encode xs := by
  refine ⟨⟨?_, fun h => exists_fault_ofPcm id h name⟩, ?_, ?_⟩
  · rintro ⟨fault, hfault, -⟩
    by_contra! h
    obtain ⟨k, hk, -⟩ := exists_ofPcm (α := Float) id h.2 h.1 name
    rw [hk] at hfault
    cases hfault
  · intro h
    push Not at h
    exact encode_ofPcm h.2 h.1 id name
  · intro xs hxs
    obtain ⟨k, hk, hencode⟩ := encode_ofPcm (length_encode_mod_two xs) (encode_ne_nil hxs) id name
    refine ⟨k, hk, ?_⟩
    rw [hencode, encode_eq, raiseLowest_flatMap (List.forall_mem_map.2 fun x _ => abs_code_double_le x)]

/-- The lowest word, the highest one and a small one, a single byte, and half of full scale. -/
theorem reencoding_lowest :
    (∃ k : Kernel Float, ofPcm 0 [0x00, 0x80, 0xff, 0x7f, 0x05, 0x00] none = .ok k ∧
      encode k.samples.toList = [0x01, 0x80, 0xff, 0x7f, 0x05, 0x00]) ∧
    (∃ fault : Fault Float, ofPcm 0 [0x00] none = .error fault ∧ fault.kind = .resource) ∧
    ∃ k : Kernel Float, ofPcm 0 (encode [(0.5 : Float)]) none = .ok k ∧
      encode k.samples.toList = encode [(0.5 : Float)] := by
  obtain ⟨-, hbytes, hsamples⟩ := reencoding 0 none [0x00, 0x80, 0xff, 0x7f, 0x05, 0x00]
  obtain ⟨hfault, -⟩ := reencoding 0 none [0x00]
  exact ⟨hbytes (by decide), hfault.2 (.inr (by decide)), hsamples [0.5] (by simp)⟩

end Kernel

end Polyphony
