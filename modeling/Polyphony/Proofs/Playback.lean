import Polyphony.Proofs.Binary64.Floor
import Polyphony.Proofs.Exact
import Polyphony.Proofs.Recording
import Polyphony.Proofs.Studio

/-!
# Playback

A reel is read at the time in samples, moved up by a billionth and without its fraction. At a time for which
it has no sample it is read at its first place, and what is found there is not played.

* `Reel.read?`: **the lookup, with a read that fails outside the buffer.** `Reel.read?_eq`: it never fails.
* `Reel.sample_eq_getElem`, `Reel.sample_eq_zero`: what is played, in exact arithmetic.
* `Reel.sample_of_not_isFinite`: at a time that is infinite or undefined nothing is played.
* `Session.record_ok`: a new reel, and the signal that plays it back.
* `Reel.playback_inverts_recording`: **what has been recorded is played back**, and at no time anything else.
-/

namespace Polyphony

open Scalar

/-! ### Places in the buffer -/

/-- **What is neither negative nor as large as a count** is over a natural number below the count. -/
def Scalar.CountsBelow (α : Type) [Scalar α] : Prop :=
  ∀ (x : α) (n : ℕ), le 0.0 x = true → lt x (ofNat n) = true → toNat x < n

/-- The natural number below a number, in exact arithmetic. -/
theorem Exact.toNat_eq (x : ℝ) : Scalar.toNat x = ⌊x⌋.toNat :=
  congrArg Int.toNat (towardZero_intCast ⌊x⌋)

theorem toNat_floor_lt {x : ℝ} {n : ℕ} (hlow : 0 ≤ x) (hhigh : x < n) : ⌊x⌋.toNat < n := by
  have hfloor : ⌊x⌋ < n := Int.floor_lt.2 (by exact_mod_cast hhigh)
  have hnonneg : 0 ≤ ⌊x⌋ := Int.floor_nonneg.2 hlow
  omega

theorem countsBelow_real : CountsBelow ℝ := by
  intro x n hlow hhigh
  rw [Exact.toNat_eq]
  exact toNat_floor_lt (by simpa using hlow) (by simpa using hhigh)

theorem countsBelow_double : CountsBelow Float := by
  intro a n hlow hhigh
  obtain ⟨x, hx, hnonneg, hlt⟩ :=
    Binary64.exists_denotes_of_lt_ofNat (of_decide_eq_true hlow) (of_decide_eq_true hhigh)
  rw [hx.toNat_eq]
  exact toNat_floor_lt hnonneg hlt

namespace Reel

section Lookup

variable {α : Type} [Scalar α] (r : Reel α) (t : α)

/-- The time in samples, without its fraction. -/
def instant : α := floor (t * r.rate + 1e-9)

/-- Whether there is a sample for the time. -/
def covers : Bool := le 0.0 (r.instant t) && lt (r.instant t) (ofNat r.samples.size)

/-- The place that is read: the first one if there is no sample for the time. -/
def place : ℕ := if r.covers t then toNat (r.instant t) else 0

/-- **The lookup, with a read that fails outside the buffer.** An empty buffer is not read. -/
def read? : Option α :=
  if r.samples.size = 0 then some 0.0
  else r.samples[r.place t]?.map fun x => if r.covers t then x else 0.0

theorem sample_eq : r.sample t = if r.covers t then r.samples.getD (toNat (r.instant t)) 0.0 else 0.0 := rfl

variable {r t}

theorem toNat_instant_lt (hcounts : CountsBelow α) (h : r.covers t = true) :
    toNat (r.instant t) < r.samples.size := by
  rw [covers, Bool.and_eq_true] at h
  exact hcounts _ _ h.1 h.2

/-- What is played where there is a sample. -/
theorem sample_of_covers {k : ℕ} (hcovers : r.covers t = true) (hplace : toNat (r.instant t) = k)
    (hk : k < r.samples.size) : r.sample t = r.samples[k] := by
  rw [sample_eq, if_pos hcovers, hplace, Array.getD_eq_getD_getElem?, Array.getElem?_eq_getElem hk,
    Option.getD_some]

/-- **No place outside the buffer is read.** -/
theorem read?_eq (hcounts : CountsBelow α) : r.read? t = some (r.sample t) := by
  unfold read? place
  by_cases hcovers : r.covers t = true
  · have hlt := toNat_instant_lt hcounts hcovers
    have hnonempty : r.samples.size ≠ 0 := by omega
    simp only [hcovers, if_true, hnonempty, if_false]
    rw [sample_of_covers hcovers rfl hlt, Array.getElem?_eq_getElem hlt, Option.map_some]
  · rw [sample_eq]
    by_cases hempty : r.samples.size = 0
    · simp only [hcovers, hempty, if_true, Bool.false_eq_true, if_false]
    · simp only [hcovers, hempty, Bool.false_eq_true, if_false]
      rw [Array.getElem?_eq_getElem (by omega), Option.map_some]

end Lookup

/-! ### What is played -/

section Exact

open Exact

variable {r : Reel ℝ} {t : ℝ}

theorem instant_eq (r : Reel ℝ) (t : ℝ) : r.instant t = ⌊t * r.rate + 1e-9⌋ := rfl

theorem covers_iff : r.covers t = true ↔ 0 ≤ ⌊t * r.rate + 1e-9⌋ ∧ ⌊t * r.rate + 1e-9⌋ < r.samples.size := by
  rw [covers, Bool.and_eq_true, instant_eq, le_iff, lt_iff, zero_lit, ofNat_eq]
  norm_cast

/-- **A sample is played** from a billionth before its time until a billionth before the next one. -/
theorem sample_eq_getElem {i : ℕ} (hi : i < r.samples.size) (hlow : i ≤ t * r.rate + 1e-9)
    (hhigh : t * r.rate + 1e-9 < i + 1) : r.sample t = r.samples[i] := by
  have hfloor : ⌊t * r.rate + 1e-9⌋ = i := Int.floor_eq_iff.2 ⟨by exact_mod_cast hlow, by exact_mod_cast hhigh⟩
  have hcovers : r.covers t = true := covers_iff.2 ⟨by omega, by omega⟩
  have hplace : Scalar.toNat (r.instant t) = i := by
    rw [Exact.toNat_eq, instant_eq, hfloor, Int.floor_intCast, Int.toNat_natCast]
  exact sample_of_covers hcovers hplace hi

/-- **Nothing is played** when no sample is. -/
theorem sample_eq_zero
    (h : ∀ i < r.samples.size, ¬ ((i : ℝ) ≤ t * r.rate + 1e-9 ∧ t * r.rate + 1e-9 < i + 1)) :
    r.sample t = 0 := by
  have hcovers : ¬ r.covers t = true := by
    rw [covers_iff]
    rintro ⟨hlow, hhigh⟩
    obtain ⟨i, hi⟩ := Int.eq_ofNat_of_zero_le hlow
    obtain ⟨hfloor, hfloor'⟩ := Int.floor_eq_iff.1 hi
    exact h i (by omega) ⟨by exact_mod_cast hfloor, by exact_mod_cast hfloor'⟩
  rw [sample_eq, if_neg hcovers, zero_lit]

end Exact

/-- **At a time that is infinite or undefined nothing is played.** -/
theorem sample_of_not_isFinite (r : Reel Float) {t : Float} (h : t.isFinite = false) : r.sample t = 0.0 := by
  rw [sample_eq, if_neg]
  intro hcovers
  rw [covers, Bool.and_eq_true] at hcovers
  obtain ⟨x, hx, -, -⟩ :=
    Binary64.exists_denotes_of_lt_ofNat (of_decide_eq_true hcovers.1) (of_decide_eq_true hcovers.2)
  have hfinite : t.isFinite = true :=
    Binary64.isFinite_of_mul (Binary64.isFinite_of_add (Binary64.isFinite_of_floor hx.isFinite))
  rw [h] at hfinite
  cases hfinite

end Reel

/-! ### Recordings -/

namespace Session

variable {α : Type} [Scalar α] {signal : Signal α} {rate : Rate α} {seconds : Given α} {plan : RecordingPlan}
  {s : Studio α}

theorem record_bind (s : Studio α) : record signal rate seconds plan s =
    (ofRun (signal.record s.reels rate seconds plan s.memory) >>= playback) s := rfl

/-- **What a recording leaves**: a new reel, and a signal that plays it back. -/
theorem record_ok {reel : Reel α} (h : (signal.record s.reels rate seconds plan s.memory).result = .ok reel) :
    ∃ heard, (record signal rate seconds plan s).1.result = .ok heard ∧
      ∀ t, heard.sample (record signal rate seconds plan s).2.reels t = reel.sample t := by
  have hrun : (ofRun (signal.record s.reels rate seconds plan s.memory) s).1.result = .ok reel := h
  rw [record_bind, bind_ok hrun]
  refine ⟨_, rfl, fun t => ?_⟩
  show ((s.reels.push reel)[s.reels.size]?.map (·.sample t)).getD 0.0 = _
  rw [Array.getElem?_push_size, Option.map_some, Option.getD_some]

theorem record_error {fault : Fault α}
    (h : (signal.record s.reels rate seconds plan s.memory).result = .error fault) :
    (record signal rate seconds plan s).1.result = .error fault := by
  have hrun : (ofRun (signal.record s.reels rate seconds plan s.memory) s).1.result = .error fault := h
  rw [record_bind, bind_error hrun]

end Session

open Exact

theorem Rate.pos_of_isPositive {rate : Rate ℝ} {hertz : ℝ} (hrate : rate.isPositive = true)
    (hhertz : rate.toScalar? = .ok hertz) : 0 < hertz := by
  cases rate with
  | whole n =>
    have hcast : (n : ℝ) = hertz := Except.ok.inj hhertz
    have hn : 0 < n := of_decide_eq_true hrate
    rw [← hcast]
    exact_mod_cast hn
  | exact h =>
    obtain rfl : h = hertz := Except.ok.inj hhertz
    have hle : ¬ le h 0.0 = true := by
      intro hle
      rw [Rate.isPositive, hle] at hrate
      cases hrate
    rw [le_iff, zero_lit] at hle
    exact not_le.1 hle

/-- **The time of a sample finds the sample.** -/
theorem Reel.sample_at {r : Reel ℝ} (hpos : 0 < r.rate) {i : ℕ} (hi : i < r.samples.size) :
    r.sample (i / r.rate) = r.samples[i] := by
  have htime : (i : ℝ) / r.rate * r.rate = i := div_mul_cancel₀ _ hpos.ne'
  apply sample_eq_getElem hi <;> rw [htime] <;> norm_num

/-- **What is recorded is played back** at the times of the samples, if there is room for them. -/
theorem Session.record_plays_back (s : Studio ℝ) (signal : Signal ℝ) {rate : Rate ℝ} {hertz seconds : ℝ}
    {chunkSize : ℤ} (workers : Option ℤ) (hrate : rate.isPositive = true)
    (hhertz : rate.toScalar? = .ok hertz) (hseconds : 0 ≤ seconds) (hchunk : 1 ≤ chunkSize) :
    let count := ⌊seconds * hertz⌋.toNat
    let recording := record signal rate (.value seconds)
      ⟨.value chunkSize, workers.elim .nothing .value⟩ s
    (Room.forSamples s.memory count = .ok () → ∃ heard, recording.1.result = .ok heard ∧
      ∀ i < count, heard.sample recording.2.reels (i / hertz) = signal.sample s.reels (i / hertz)) ∧
    ∀ fault, Room.forSamples s.memory count = .error fault →
      recording.1.result = .error (.noArray fault) := by
  intro count recording
  have hpos : 0 < hertz := Rate.pos_of_isPositive hrate hhertz
  have hle : le hertz 0.0 = false := decide_eq_false (by rwa [zero_lit, not_le])
  have hlt : lt seconds 0.0 = false := decide_eq_false (by rwa [zero_lit, not_lt])
  have htotal : toInt? (seconds * hertz) = .ok ⌊seconds * hertz⌋ :=
    congrArg Except.ok (if_pos (mul_nonneg hseconds hpos.le))
  have hresult := signal.record_result s.reels s.memory hrate hhertz hle hlt htotal
    (by omega : 0 < chunkSize) workers
  constructor
  · intro hroom
    rw [hroom] at hresult
    obtain ⟨heard, hheard, hplays⟩ := record_ok hresult
    refine ⟨heard, hheard, fun i hi => ?_⟩
    rw [hplays]
    have hsize : i < (Recording.values s.reels signal hertz count).toArray.size := by
      rwa [List.size_toArray, Recording.values, List.length_map, List.length_range]
    have hsample := Reel.sample_at (r := ⟨_, hertz, hle⟩) hpos hsize
    rw [hsample, List.getElem_toArray]
    simp only [Recording.values, List.getElem_map, List.getElem_range]
    rfl
  · intro fault hroom
    rw [hroom] at hresult
    exact record_error hresult

/-- **Playback inverts recording, and never leaves the buffer.** In exact arithmetic sample `i` is played from
a billionth of a sample before its time until a billionth before the next one, and nothing is played at any
other time. On doubles nothing is played at a time that is infinite or undefined. No lookup reads outside
the buffer, which may be empty. So what is recorded of a signal plays, at the times at which the signal has
been sampled, what the signal does; that the studio has no room for so many samples is the only obstacle. -/
theorem Reel.playback_inverts_recording :
    (∀ (r : Reel ℝ) (t : ℝ),
      (∀ (i : ℕ) (hi : i < r.samples.size), i ≤ t * r.rate + 1e-9 → t * r.rate + 1e-9 < i + 1 →
        r.sample t = r.samples[i]) ∧
      ((∀ i < r.samples.size, ¬ ((i : ℝ) ≤ t * r.rate + 1e-9 ∧ t * r.rate + 1e-9 < i + 1)) →
        r.sample t = 0)) ∧
    (∀ (r : Reel Float) (t : Float), t.isFinite = false → r.sample t = 0.0) ∧
    (∀ (r : Reel ℝ) (t : ℝ), r.read? t = some (r.sample t)) ∧
    (∀ (r : Reel Float) (t : Float), r.read? t = some (r.sample t)) ∧
    ∀ (s : Studio ℝ) (signal : Signal ℝ) (rate : Rate ℝ) (hertz seconds : ℝ) (chunkSize : ℤ)
      (workers : Option ℤ), rate.isPositive = true → rate.toScalar? = .ok hertz → 0 ≤ seconds →
      1 ≤ chunkSize →
      let count := ⌊seconds * hertz⌋.toNat
      let recording := Session.record signal rate (.value seconds)
        ⟨.value chunkSize, workers.elim .nothing .value⟩ s
      (Room.forSamples s.memory count = .ok () → ∃ heard, recording.1.result = .ok heard ∧
        ∀ i < count, heard.sample recording.2.reels (i / hertz) = signal.sample s.reels (i / hertz)) ∧
      ∀ fault, Room.forSamples s.memory count = .error fault →
        recording.1.result = .error (.noArray fault) := by
  refine ⟨fun r t => ⟨fun i hi => sample_eq_getElem hi, sample_eq_zero⟩, fun r t => sample_of_not_isFinite r,
    fun r t => read?_eq countsBelow_real, fun r t => read?_eq countsBelow_double, ?_⟩
  intro s signal rate hertz seconds chunkSize workers hrate hhertz hseconds hchunk
  exact Session.record_plays_back s signal workers hrate hhertz hseconds hchunk

/-- A line that is recorded for a second at four samples a second, in a memory of 32 bytes, and two samples
between which a time lies. -/
theorem Reel.playback_inverts_recording_line :
    (∃ heard, (Session.record (.node 0 (.line 0 1) Fin.elim0) (.whole 4) (.value 1)
        ⟨.value 3, .value 2⟩ (Studio.empty (.empty []) 32 : Studio ℝ)).1.result = .ok heard) ∧
    ∃ r : Reel ℝ, r.samples = #[3, 5] ∧ r.rate = 2 ∧ r.sample (3 / 4) = 5 ∧ r.sample (-1) = 0 := by
  obtain ⟨hplays, -, -, -, hrecord⟩ := playback_inverts_recording
  constructor
  · have hcount : ⌊(1 : ℝ) * 4⌋ = 4 := by norm_num
    obtain ⟨hroom, -⟩ := hrecord (Studio.empty (.empty []) 32) (.node 0 (.line 0 1) Fin.elim0) (.whole 4) 4 1
      3 (some 2) rfl (by simp [Rate.toScalar?, ofInt?]) zero_le_one (by norm_num)
    rw [hcount] at hroom
    obtain ⟨heard, hheard, -⟩ := hroom rfl
    exact ⟨heard, hheard⟩
  · let r : Reel ℝ := ⟨#[3, 5], 2, decide_eq_false (by norm_num)⟩
    refine ⟨r, rfl, rfl, ?_, ?_⟩
    · exact (hplays r (3 / 4)).1 1 (by decide) (by norm_num [r]) (by norm_num [r])
    · refine (hplays r (-1)).2 fun i hi => ?_
      rintro ⟨hlow, -⟩
      have hnonneg : (0 : ℝ) ≤ i := Nat.cast_nonneg i
      norm_num [r] at hlow
      linarith

/-- **There may be no room**, as there is none for `1e19` samples in any studio. -/
theorem Reel.playback_needs_room :
    ¬ ∃ s : Studio ℝ, ∀ (signal : Signal ℝ) (rate : Rate ℝ) (hertz seconds : ℝ) (chunkSize : ℤ)
      (workers : Option ℤ), rate.isPositive = true → rate.toScalar? = .ok hertz → 0 ≤ seconds →
      1 ≤ chunkSize →
      let recording := Session.record signal rate (.value seconds)
        ⟨.value chunkSize, workers.elim .nothing .value⟩ s
      ∃ heard, recording.1.result = .ok heard ∧ ∀ i < ⌊seconds * hertz⌋.toNat,
        heard.sample recording.2.reels (i / hertz) = signal.sample s.reels (i / hertz) := by
  rintro ⟨s, h⟩
  have hcount : ⌊(1e19 : ℝ) * 1⌋ = 10000000000000000000 := by norm_num
  have hrate : (Rate.exact 1 : Rate ℝ).isPositive = true := by
    have hle : le (1 : ℝ) 0.0 = false := decide_eq_false (by norm_num)
    rw [Rate.isPositive, hle]
    rfl
  have hseconds : (0 : ℝ) ≤ 1e19 := by norm_num
  obtain ⟨heard, hheard, -⟩ := h (.node 0 (.constant 1) Fin.elim0) (.exact 1) 1 1e19 1 none hrate rfl hseconds
    le_rfl
  obtain ⟨-, hfull⟩ := Session.record_plays_back s (.node 0 (.constant 1) Fin.elim0) none hrate rfl hseconds
    (le_refl (1 : ℤ))
  rw [hcount] at hfull
  have herror := hfull _ (Room.forSamples_of_limit_le (by decide))
  rw [herror] at hheard
  cases hheard

end Polyphony
