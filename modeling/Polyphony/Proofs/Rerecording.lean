import Polyphony.Proofs.Binary64.Back
import Polyphony.Proofs.Playback

/-!
# Recordings that are recorded again

A reel is recorded again for as long as it lasts, at its own rate. Its length is divided by the rate and
multiplied back, and so is the number of every sample.

* `Reel.kept`, `Reel.found`: how many samples are left, and which sample is found at the time of another.
* `Reel.kept_le`, `Reel.found_eq_self`: at most the last sample is lost, and up to `2 ^ 24` every sample finds
  itself.
* `Signal.rerecord`: **what a recording that is recorded again is like.**
* `Signal.rerecord_loses`: it can lose its last sample.
-/

namespace Polyphony

open Scalar
open Binary64 hiding back toInt?

namespace Reel

variable {r : Reel Float} {ρ : ℝ} {i k : ℕ} {t : Float}

/-- A number of samples as seconds, and back. -/
def back (r : Reel Float) (i : ℕ) : Float := Float.ofNat i / r.rate * r.rate

/-- **What is left of the length**: the last sample is lost if the length falls short. -/
def kept (r : Reel Float) : ℕ :=
  if r.back r.samples.size < Float.ofNat r.samples.size then r.samples.size - 1 else r.samples.size

/-- **The sample that is found at the time of a sample**: the one before it if the time falls short. -/
def found (r : Reel Float) (i : ℕ) : ℕ := if r.back i + 1e-9 < Float.ofNat i then i - 1 else i

theorem kept_le (r : Reel Float) : r.kept ≤ r.samples.size := by
  unfold kept
  split_ifs <;> omega

theorem found_le (r : Reel Float) (i : ℕ) : r.found i ≤ i := by
  unfold found
  split_ifs <;> omega

/-! ### What the times stand for -/

variable (hrate : Denotes r.rate ρ) (hone : 1 ≤ ρ)

include hrate hone

theorem denotes_seconds (hi : i < 2 ^ 50) : Denotes (Float.ofNat i / r.rate) (rounded (i / ρ)) := by
  refine (denotes_ofNat (by omega)).div hrate (by linarith) (abs_rounded_lt (m := i) (by omega) ?_)
  rw [abs_of_nonneg (by positivity)]
  exact div_le_self (Nat.cast_nonneg i) hone

theorem denotes_back (hi : i < 2 ^ 50) : Denotes (r.back i) (Binary64.back ρ i) := by
  have hsize : |rounded (i / ρ) * ρ| ≤ ((i + 1 : ℕ) : ℝ) := by
    obtain ⟨hlow, hhigh⟩ := abs_le.1 (abs_rounded_div_mul_sub_le_eighth (by linarith) hrate.lt_limit hi)
    have hnonneg : (0 : ℝ) ≤ i := Nat.cast_nonneg i
    push_cast
    rw [abs_le]
    constructor <;> linarith
  exact (denotes_seconds hrate hone hi).mul hrate (abs_rounded_lt (by omega) hsize)

/-- The time of a sample, moved up by a billionth. -/
theorem denotes_back_add (hi : i < 2 ^ 50) : ∃ e : ℝ, 1 / 2 ^ 30 ≤ e ∧ e ≤ 1 / 8 ∧
    Denotes (r.back i + 1e-9) (rounded (Binary64.back ρ i + e)) := by
  obtain ⟨e, hbillionth, hlow, hhigh⟩ := exists_denotes_billionth
  have hnear := (abs_le.1 (abs_back_sub_le (by linarith) hrate.lt_limit hi)).2
  have hnonneg := back_nonneg (by linarith : 0 < ρ) i
  have hpositive : (0 : ℝ) < e := lt_of_lt_of_le (by norm_num) hlow
  refine ⟨e, hlow, hhigh, ?_⟩
  refine (denotes_back hrate hone hi).add hbillionth (abs_rounded_lt (m := i + 1) (by omega) ?_)
  push_cast
  rw [abs_of_nonneg (by linarith)]
  linarith

/-- **The index that is computed** at the time of a sample. -/
theorem denotes_instant (hi : i < 2 ^ 50) : Denotes (r.instant (Float.ofNat i / r.rate)) (r.found i) := by
  obtain ⟨e, hlow, hhigh, hsum⟩ := denotes_back_add hrate hone hi
  have hpositive : (0 : ℝ) < e := lt_of_lt_of_le (by norm_num) hlow
  have hfloor := floor_rounded_back_add (by linarith) hrate.lt_limit hi hpositive.le hhigh
  have hback := back_nonneg (by linarith : 0 < ρ) i
  have hnonneg : 0 ≤ rounded (Binary64.back ρ i + e) := rounded_nonneg (by linarith)
  have hshort := hsum.lt_iff (denotes_ofNat (n := i) (by omega))
  have hfound : ((r.found i : ℕ) : ℤ) = ⌊rounded (Binary64.back ρ i + e)⌋ :=
    natCast_ite_sub_one hshort hnonneg hfloor
  have hindex := hsum.floor
  rw [← hfound] at hindex
  exact_mod_cast hindex

/-- **Up to `2 ^ 24` every sample finds itself.** -/
theorem found_eq_self (hi : i ≤ 2 ^ 24) : r.found i = i := by
  obtain ⟨e, hlow, -, hsum⟩ := denotes_back_add hrate hone (i := i) (by omega)
  have hge := le_rounded_back_add (by linarith) hrate.lt_limit hlow hi
  have hshort := hsum.lt_iff (denotes_ofNat (n := i) (by omega))
  rw [found, if_neg (mt hshort.1 (not_lt.2 hge))]

/-- Later than that a sample can find the one before it. -/
example : (⟨#[], 44100.0, by decide +kernel⟩ : Reel Float).found 22579228 = 22579227 := by
  decide +kernel

/-! ### What is found -/

omit hrate hone in
/-- A reel is read at the index that is computed, if there is a sample for it. -/
theorem sample_of_denotes (hk : k < r.samples.size) (hsize : r.samples.size < 2 ^ 53)
    (hindex : Denotes (r.instant t) k) : r.sample t = r.samples[k] := by
  have hcovers : r.covers t = true := by
    rw [covers, Bool.and_eq_true]
    constructor
    · exact decide_eq_true ((denotes_nothing.le_iff hindex).2 (Nat.cast_nonneg k))
    · exact decide_eq_true ((hindex.lt_iff (denotes_ofNat hsize)).2 (by exact_mod_cast hk))
  have hplace : Scalar.toNat (r.instant t) = k := by
    rw [hindex.toNat_eq, Int.floor_natCast, Int.toNat_natCast]
  exact sample_of_covers hcovers hplace hk

/-- **What is played at the time of a sample.** -/
theorem sample_seconds (hsize : r.samples.size < 2 ^ 50) (hi : i < r.samples.size) :
    some (r.sample (Float.ofNat i / r.rate)) = r.samples[r.found i]? := by
  have hfound : r.found i < r.samples.size := (found_le r i).trans_lt hi
  rw [sample_of_denotes hfound (by omega) (denotes_instant hrate hone (by omega)),
    Array.getElem?_eq_getElem hfound]

/-- **The length that is computed.** -/
theorem toInt?_duration (hsize : r.samples.size < 2 ^ 50) :
    toInt? (r.duration * r.rate) = .ok (r.kept : ℤ) := by
  have hpos : 0 < ρ := by linarith
  have hback := denotes_back hrate hone hsize
  have hnonneg := back_nonneg hpos r.samples.size
  have hfloor := floor_back hpos hrate.lt_limit hsize
  have hshort := hback.lt_iff (denotes_ofNat (n := r.samples.size) (by omega))
  have hkept : (r.kept : ℤ) = ⌊Binary64.back ρ r.samples.size⌋ :=
    natCast_ite_sub_one hshort hnonneg hfloor
  have hpart : Binary64.toInt? (r.back r.samples.size) = .ok (integerPart (r.back r.samples.size)) :=
    toInt?_of_isFinite hback.isFinite
  show Binary64.toInt? (r.back r.samples.size) = _
  rw [hpart, hback.integerPart_eq, hkept]
  exact congrArg Except.ok (if_pos hnonneg)

end Reel

namespace Signal

open Recording

variable {r : Reel Float} {ρ : ℝ} {k memory : ℕ} {chunkSize : ℤ}

theorem sample_playback {reels : Reels Float} (hr : reels[k]? = some r) (id : ℕ) (t : Float) :
    (node id (.playback k) Fin.elim0).sample reels t = r.sample t := by
  show (reels[k]?.map (·.sample t)).getD 0.0 = _
  rw [hr, Option.map_some, Option.getD_some]

/-- What is recorded again: the values at the first instants, as many as are kept. -/
theorem rerecord_result (reels : Reels Float) (id : ℕ) (workers : Option ℤ) (hrate : Denotes r.rate ρ)
    (hone : 1 ≤ ρ) (hsize : r.samples.size < 2 ^ 50)
    (hroom : Room.forSamples memory r.samples.size = .ok ()) (hchunk : 1 ≤ chunkSize) :
    ((node id (.playback k) Fin.elim0).record reels (.exact r.rate) (.value r.duration)
      ⟨.value chunkSize, workers.elim .nothing .value⟩ memory).result =
        .ok ⟨(values reels (node id (.playback k) Fin.elim0) r.rate r.kept).toArray, r.rate, r.positive⟩ := by
  have hpositive : (Rate.exact r.rate).isPositive = true := by
    rw [Rate.isPositive, r.positive]
    rfl
  have hseconds : lt r.duration 0.0 = false := by
    have hduration := Reel.denotes_seconds hrate hone hsize
    have hnonneg : 0 ≤ rounded (r.samples.size / ρ) := rounded_nonneg (by positivity)
    exact decide_eq_false (mt (hduration.lt_iff denotes_nothing).1 (not_lt.2 hnonneg))
  have hresult := record_result reels (node id (.playback k) Fin.elim0) memory hpositive rfl r.positive
    hseconds (Reel.toInt?_duration hrate hone hsize) (by omega : 0 < chunkSize) workers
  rw [Int.toNat_natCast, Room.forSamples_of_le r.kept_le hroom] at hresult
  exact hresult

/-- The values at the times of the samples are the samples that are found there. -/
theorem getElem?_values {reels : Reels Float} (hr : reels[k]? = some r) (id : ℕ) (hrate : Denotes r.rate ρ)
    (hone : 1 ≤ ρ) (hsize : r.samples.size < 2 ^ 50) {i : ℕ} (hi : i < r.kept) :
    (values reels (node id (.playback k) Fin.elim0) r.rate r.kept).toArray[i]? = r.samples[r.found i]? := by
  rw [← Reel.sample_seconds hrate hone hsize (hi.trans_le r.kept_le), ← sample_playback hr id, values,
    List.getElem?_toArray, List.getElem?_map, List.getElem?_range hi, Option.map_some]
  rfl

/-- **A recording that is recorded again**, for as long as it lasts and at its own rate, where its samples are
fewer than `2 ^ 50` and there is room for them. It has the samples that are kept: all of them, or all but the
last one, if the length, divided by the rate and multiplied back, falls short. Each of them is the sample that
is found at its time, and up to number `2 ^ 24` this is the sample itself. So where no sample is lost, and no
more than that are there, the recording is what it was. -/
theorem rerecord (reels : Reels Float) (id : ℕ) (workers : Option ℤ) (hr : reels[k]? = some r)
    (hrate : Denotes r.rate ρ) (hone : 1 ≤ ρ) (hsize : r.samples.size < 2 ^ 50)
    (hroom : Room.forSamples memory r.samples.size = .ok ()) (hchunk : 1 ≤ chunkSize) :
    ∃ again, ((node id (.playback k) Fin.elim0).record reels (.exact r.rate) (.value r.duration)
        ⟨.value chunkSize, workers.elim .nothing .value⟩ memory).result = .ok again ∧
      again.rate = r.rate ∧ again.samples.size = r.kept ∧
      (∀ i < r.kept, again.samples[i]? = r.samples[r.found i]?) ∧
      (∀ i ≤ 2 ^ 24, r.found i = i) ∧
      (r.kept = r.samples.size → r.samples.size ≤ 2 ^ 24 + 1 → again = r) := by
  have hfound : ∀ i ≤ 2 ^ 24, r.found i = i := fun i hi => Reel.found_eq_self hrate hone hi
  have hlength : (values reels (node id (.playback k) Fin.elim0) r.rate r.kept).length = r.kept := by
    rw [values, List.length_map, List.length_range]
  refine ⟨_, rerecord_result reels id workers hrate hone hsize hroom hchunk, rfl, hlength,
    fun i hi => getElem?_values hr id hrate hone hsize hi, hfound, fun hkept hsmall => ?_⟩
  have hsame : (values reels (node id (.playback k) Fin.elim0) r.rate r.kept).toArray = r.samples := by
    refine Array.ext_getElem? fun i => ?_
    by_cases hi : i < r.kept
    · rw [getElem?_values hr id hrate hone hsize hi, hfound i (by omega)]
    · rw [List.getElem?_toArray, List.getElem?_eq_none (by omega), Array.getElem?_eq_none (by omega)]
  simp only [hsame]

/-- Three samples at two a second, in a memory of 24 bytes. -/
theorem rerecord_three : ∃ r : Reel Float, r.samples = #[0.5, -0.25, 1.0] ∧ r.rate = 2.0 ∧
    ((node 0 (.playback 0) Fin.elim0).record #[r] (.exact r.rate) (.value r.duration)
      ⟨.value 2, .value 2⟩ 24).result = .ok r := by
  let r : Reel Float := ⟨#[0.5, -0.25, 1.0], 2.0, by decide +kernel⟩
  obtain ⟨again, hagain, -, -, -, -, hsame⟩ := rerecord #[r] 0 (some 2) (r := r) (k := 0) rfl denotes_two
    one_le_two (by norm_num [r]) (by rfl : Room.forSamples 24 3 = .ok ()) (by norm_num : (1 : ℤ) ≤ 2)
  have hkept : r.kept = 3 := by decide +kernel
  obtain rfl : again = r := hsame hkept (by norm_num [r])
  exact ⟨r, rfl, rfl, hagain⟩

/-- **A sample can be lost**: one sample at 49 a second lasts for a time that is not quite one sample. -/
theorem rerecord_loses :
    ¬ ∀ (reels : Reels Float) (id k memory : ℕ) (r : Reel Float) (hertz : ℕ) (chunkSize : ℤ)
      (workers : Option ℤ), reels[k]? = some r → Denotes r.rate hertz → 1 ≤ hertz →
      r.samples.size < 2 ^ 50 → Room.forSamples memory r.samples.size = .ok () → 1 ≤ chunkSize →
      ∃ again, ((node id (.playback k) Fin.elim0).record reels (.exact r.rate) (.value r.duration)
          ⟨.value chunkSize, workers.elim .nothing .value⟩ memory).result = .ok again ∧
        again.samples.size = r.samples.size ∧ again.samples = r.samples := by
  intro h
  let r : Reel Float := ⟨#[1.0], 49.0, by decide +kernel⟩
  have hrate : Denotes 49.0 (49 : ℕ) :=
    denotes_literal (m := 49 * 2 ^ 47) (e := -47) (by norm_num) rfl (by norm_num)
  have hcount : r.samples.size < 2 ^ 50 := by norm_num [r]
  have hroom : Room.forSamples 8 r.samples.size = .ok () := rfl
  obtain ⟨again, hagain, hsize, -⟩ := h #[r] 0 0 8 r 49 1 none rfl hrate (by norm_num) hcount hroom le_rfl
  have hresult := rerecord_result #[r] 0 none (r := r) (k := 0) hrate (by norm_num) hcount hroom
    (le_refl (1 : ℤ))
  have hkept : r.kept = 0 := by decide +kernel
  rw [hresult, Except.ok.injEq] at hagain
  subst hagain
  rw [hkept] at hsize
  cases hsize

end Signal

end Polyphony
