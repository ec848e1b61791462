import Mathlib
import Polyphony.Proofs.Binary64
import Polyphony.Proofs.Run
import Polyphony.Recording

/-!
# What is recorded and streamed

A recording cuts a range of instants into chunks, which workers may share; a stream cuts the same
range block by block. However it is cut, and whoever computes it, instant `i` gets the value at time
`i / rate`.

* `Recording.values`: the values at the first instants.
* `shareOut_eq_map`: jobs that are shared out come back in order.
* `chunks_of_pos`: the first chunk, and the chunks of what is left; `blocksFrom_eq`: **the blocks of a
  stream are the chunks of a recording.**
* `Signal.record_result`, `Signal.stream_result`: what is recorded and streamed, in any arithmetic.
* `Signal.record_stream_values`: all of this in doubles.
-/

namespace Polyphony

open Scalar

/-! ### Sharing out jobs -/

namespace Recording

variable {β γ : Type} {workers lane : ℕ} {work : β → γ}

/-- What a worker does: every `workers`-th job, from the one with its own number on. -/
def laneOf (workers lane : ℕ) (jobs : List β) (work : β → γ) : List γ :=
  (jobs.zipIdx.filter fun (_, k) => k % workers == lane).map fun (job, _) => work job

theorem laneOf_append (jobs : List β) (job : β) : laneOf workers lane (jobs ++ [job]) work =
    laneOf workers lane jobs work ++ if jobs.length % workers = lane then [work job] else [] := by
  unfold laneOf
  rw [List.zipIdx_append, List.filter_append, List.map_append]
  by_cases hlane : jobs.length % workers = lane <;> simp [hlane]

theorem length_laneOf (jobs : List β) (work : β → γ) :
    (laneOf workers lane jobs work).length = Nat.count (· % workers = lane) jobs.length := by
  induction jobs using List.reverseRecOn with
  | nil => rfl
  | append_singleton jobs job ih =>
    rw [laneOf_append, List.length_append, ih, List.length_append, List.length_singleton,
      Nat.count_succ]
    split <;> rfl

/-- Among the numbers below `k`, `k / workers` have the remainder of `k`. -/
theorem count_mod (hworkers : 0 < workers) (k : ℕ) :
    Nat.count (· % workers = k % workers) k = k / workers := by
  have hcount := Nat.count_modEq_card k hworkers (k % workers)
  rw [Nat.mod_mod, if_neg (lt_irrefl _), add_zero] at hcount
  rw [← hcount]
  simp only [Nat.ModEq, Nat.mod_mod]

/-- **Job `k` is the `k / workers`-th of the lane** that it falls to. -/
theorem getElem?_laneOf (hworkers : 0 < workers) (jobs : List β) {k : ℕ} (hk : k < jobs.length) :
    (laneOf workers (k % workers) jobs work)[k / workers]? = some (work jobs[k]) := by
  induction jobs using List.reverseRecOn with
  | nil => exact absurd hk (Nat.not_lt_zero k)
  | append_singleton jobs job ih =>
    rw [laneOf_append]
    rcases Nat.lt_or_ge k jobs.length with hlt | hge
    · have hjob := ih hlt
      obtain ⟨hbound, -⟩ := List.getElem?_eq_some_iff.1 hjob
      rw [List.getElem?_append_left hbound, hjob, List.getElem_append_left hlt]
    · -- the last job, which comes after all that the lane has so far
      obtain rfl : k = jobs.length := by
        rw [List.length_append, List.length_singleton] at hk
        omega
      rw [if_pos rfl, ← count_mod hworkers, ← length_laneOf jobs work, List.getElem?_concat_length]
      simp

theorem filterMap_range_getElem? (jobs : List β) (work : β → γ) :
    ((List.range jobs.length).filterMap fun k => jobs[k]?.map work) = jobs.map work := by
  induction jobs with
  | nil => rfl
  | cons job jobs ih =>
    rw [List.length_cons, List.range_succ_eq_map]
    simpa [List.filterMap_map, Function.comp_def] using ih

/-- **Jobs that are shared out come back in order.** -/
theorem shareOut_eq_map (hworkers : 0 < workers) (jobs : List β) (work : β → γ) :
    shareOut workers jobs work = jobs.map work := by
  have hjob : ∀ k ∈ List.range jobs.length,
      ((((List.range workers).map fun lane =>
        (laneOf workers lane jobs work).toArray)[k % workers]?).bind fun lane => lane[k / workers]?) =
          jobs[k]?.map work := by
    intro k hk
    have hk := List.mem_range.1 hk
    have hlane : k % workers < workers := Nat.mod_lt k hworkers
    rw [List.getElem?_map, List.getElem?_range hlane, Option.map_some, Option.bind_some,
      List.getElem?_toArray, getElem?_laneOf hworkers jobs hk, List.getElem?_eq_getElem hk]
    rfl
  have hshare : shareOut workers jobs work =
      (List.range jobs.length).filterMap fun k => jobs[k]?.map work := List.filterMap_congr hjob
  rw [hshare, filterMap_range_getElem?]

/-! ### Cutting a range -/

variable {α : Type} [Scalar α] (reels : Reels α) (s : Signal α) (hertz : α)

/-- **The values at the first instants.** -/
def values (count : ℕ) : List α :=
  (List.range count).map fun i => s.sample reels (ofNat i / hertz)

theorem toList_instants_zero (count : ℕ) :
    (instants reels s hertz 0 count).toList = values reels s hertz count := by
  simp [instants, values]

theorem toList_instants_add (first m n : ℕ) : (instants reels s hertz first (m + n)).toList =
    (instants reels s hertz first m).toList ++ (instants reels s hertz (first + m) n).toList := by
  simp only [instants, Array.toList_map, Array.toList_range, List.range_add, List.map_append,
    List.map_map]
  congr 1
  refine List.map_congr_left fun j _ => ?_
  rw [Function.comp_apply, Nat.add_assoc]

variable {size : ℕ}

theorem chunks_zero (hsize : 0 < size) : chunks 0 size = [] := by
  have hnone : (0 + size - 1) / size = 0 := Nat.div_eq_of_lt (by omega)
  rw [chunks, hnone]
  rfl

/-- **The first chunk**, and the chunks of what is left. -/
theorem chunks_of_pos (hsize : 0 < size) {count : ℕ} (hcount : 0 < count) : chunks count size =
    (0, min size count) :: (chunks (count - size) size).map fun chunk => (size + chunk.1, chunk.2) := by
  have hnumber : (count + size - 1) / size = (count - size + size - 1) / size + 1 := by
    rcases Nat.lt_or_ge count size with hlt | hge
    · have hone : (count + size - 1) / size = 1 := by
        rw [Nat.div_eq_iff hsize]
        omega
      have hzero : (count - size + size - 1) / size = 0 := Nat.div_eq_of_lt (by omega)
      rw [hone, hzero]
    · rw [show count + size - 1 = count - size + size - 1 + size by omega,
        Nat.add_div_right _ hsize]
  rw [chunks, hnumber, List.range_succ_eq_map, List.map_cons, List.map_map, chunks, List.map_map]
  congr 1
  · simp
  · refine List.map_congr_left fun k _ => ?_
    simp only [Function.comp_apply, Nat.succ_mul, Nat.add_comm (k * size), Nat.sub_sub]

/-- **Chunk after chunk is the whole range.** -/
theorem flatMap_chunks (hsize : 0 < size) (first count : ℕ) :
    ((chunks count size).flatMap fun chunk =>
      (instants reels s hertz (first + chunk.1) chunk.2).toList) =
        (instants reels s hertz first count).toList := by
  induction count using Nat.strongRecOn generalizing first with
  | ind count ih =>
    rcases Nat.eq_zero_or_pos count with rfl | hcount
    · simp [chunks_zero hsize, instants]
    · have hrest := ih (count - size) (by omega) (first + size)
      rw [chunks_of_pos hsize hcount, List.flatMap_cons, List.flatMap_map]
      simp only [← Nat.add_assoc]
      rw [hrest, Nat.add_zero]
      rcases Nat.le_total count size with hle | hge
      · rw [Nat.min_eq_right hle, Nat.sub_eq_zero_of_le hle]
        simp [instants]
      · rw [Nat.min_eq_left hge, ← toList_instants_add, Nat.add_sub_cancel' hge]

/-- No chunk is empty. -/
theorem pos_of_mem_chunks (hsize : 0 < size) {count : ℕ} {chunk : ℕ × ℕ}
    (h : chunk ∈ chunks count size) : 0 < chunk.2 := by
  induction count using Nat.strongRecOn generalizing chunk with
  | ind count ih =>
    rcases Nat.eq_zero_or_pos count with rfl | hcount
    · rw [chunks_zero hsize] at h
      exact absurd h List.not_mem_nil
    · rw [chunks_of_pos hsize hcount, List.mem_cons, List.mem_map] at h
      rcases h with rfl | ⟨earlier, hearlier, rfl⟩
      · exact lt_min hsize hcount
      · have hpos := ih (count - size) (by omega) hearlier
        exact hpos

/-- All chunks but the last have the full size. -/
theorem size_of_mem_dropLast_chunks (hsize : 0 < size) {count : ℕ} {chunk : ℕ × ℕ}
    (h : chunk ∈ (chunks count size).dropLast) : chunk.2 = size := by
  induction count using Nat.strongRecOn generalizing chunk with
  | ind count ih =>
    rcases Nat.eq_zero_or_pos count with rfl | hcount
    · rw [chunks_zero hsize] at h
      exact absurd h List.not_mem_nil
    · rw [chunks_of_pos hsize hcount] at h
      rcases Nat.lt_or_ge size count with hlt | hge
      · have hmore : (chunks (count - size) size).map
            (fun chunk => (size + chunk.1, chunk.2)) ≠ [] := by
          rw [chunks_of_pos hsize (by omega : 0 < count - size)]
          exact List.cons_ne_nil _ _
        rw [List.dropLast_cons_of_ne_nil hmore, ← List.map_dropLast, List.mem_cons,
          List.mem_map] at h
        rcases h with rfl | ⟨earlier, hearlier, rfl⟩
        · exact Nat.min_eq_left hlt.le
        · have hfull := ih (count - size) (by omega) hearlier
          exact hfull
      · -- there is but one chunk
        rw [Nat.sub_eq_zero_of_le hge, chunks_zero hsize] at h
        exact absurd h List.not_mem_nil

/-- A range of full chunks. -/
theorem chunks_mul (hsize : 0 < size) (k : ℕ) :
    chunks (k * size) size = (List.range k).map fun j => (j * size, size) := by
  have hnumber : (k * size + size - 1) / size = k := by
    rw [Nat.add_sub_assoc hsize, Nat.mul_comm, Nat.mul_add_div hsize, Nat.div_eq_of_lt (by omega),
      Nat.add_zero]
  rw [chunks, hnumber]
  refine List.map_congr_left fun j hj => ?_
  have hleft : (j + 1) * size ≤ k * size := Nat.mul_le_mul_right size (List.mem_range.1 hj)
  rw [Nat.succ_mul] at hleft
  rw [Nat.min_eq_left (by omega)]

/-- **A range, cut into blocks**: they hold its values in order, none is empty, and all but the last
have the full size. -/
structure IsCut (size : ℕ) (range : List α) (blocks : List (Array α)) : Prop where
  flatMap_eq : blocks.flatMap Array.toList = range
  pos : ∀ block ∈ blocks, 0 < block.size
  size_eq : ∀ block ∈ blocks.dropLast, block.size = size

theorem isCut_chunks (hsize : 0 < size) (count : ℕ) : IsCut size (values reels s hertz count)
    ((chunks count size).map fun chunk => instants reels s hertz chunk.1 chunk.2) where
  flatMap_eq := by
    have hcut := flatMap_chunks reels s hertz hsize 0 count
    simp only [Nat.zero_add] at hcut
    rw [List.flatMap_map, hcut, toList_instants_zero]
  pos block hblock := by
    obtain ⟨chunk, hchunk, rfl⟩ := List.mem_map.1 hblock
    simpa [instants] using pos_of_mem_chunks hsize hchunk
  size_eq block hblock := by
    rw [← List.map_dropLast] at hblock
    obtain ⟨chunk, hchunk, rfl⟩ := List.mem_map.1 hblock
    simpa [instants] using size_of_mem_dropLast_chunks hsize hchunk

/-- **The chunks are rendered alike by everybody**: nobody is left without work to do, so every
chunk comes back, and in order. -/
theorem renderChunks_eq {workers : Given ℤ} {jobs : ℕ} {staffed : Option ℕ}
    (hstaff : (staff workers jobs : Except (Fault α) _) = .ok staffed) (cut : List (ℕ × ℕ)) :
    renderChunks reels s hertz staffed cut =
      cut.map fun chunk => instants reels s hertz chunk.1 chunk.2 := by
  have hpos : ∀ n, staffed = some n → 0 < n := by
    intro n hn
    subst hn
    cases workers with
    | nothing => cases hstaff
    | emptyList =>
      simp only [staff] at hstaff
      split at hstaff <;> cases hstaff
    | value w =>
      simp only [staff, Except.ok.injEq] at hstaff
      split at hstaff <;> simp at hstaff
      omega
  cases staffed with
  | none => rfl
  | some n => exact shareOut_eq_map (hpos n rfl) cut fun chunk => instants reels s hertz chunk.1 chunk.2

omit [Scalar α] in
theorem toList_foldl_append (first : Array α) (blocks : List (Array α)) :
    (blocks.foldl (· ++ ·) first).toList = first.toList ++ blocks.flatMap Array.toList := by
  induction blocks generalizing first with
  | nil => simp
  | cons block blocks ih => simp [ih]

end Recording

/-! ### Streams, block by block -/

namespace Stream

open Recording

variable {α : Type} [Scalar α] (reels : Reels α) (s : Signal α) (hertz : α) {memory size : ℕ}

/-- How many instants the first blocks from an instant on have. -/
def reach (total : Option ℤ) (size limit start : ℕ) : ℕ :=
  match total with
  | none => limit * size
  | some total => min (total.toNat - start) (limit * size)

theorem blockAt_eq (total : Option ℤ) (size limit start : ℕ) :
    blockAt total size start = min size (reach total size (limit + 1) start) := by
  have hfirst : size ≤ (limit + 1) * size := Nat.le_mul_of_pos_left size (Nat.succ_pos limit)
  cases total with
  | none => exact (Nat.min_eq_left hfirst).symm
  | some total => simp only [blockAt, reach]; omega

theorem reach_add_block (total : Option ℤ) (size limit start : ℕ) :
    reach total size limit (start + blockAt total size start) =
      reach total size (limit + 1) start - size := by
  have hsplit : (limit + 1) * size = limit * size + size := Nat.succ_mul limit size
  cases total with
  | none => simp only [reach]; omega
  | some total => simp only [blockAt, reach]; omega

/-- **The blocks of a stream are the chunks of a recording** of as many instants. -/
theorem blocksFrom_eq (hsize : 0 < size) (total : Option ℤ) (limit start : ℕ)
    (hroom : Room.forSamples memory (min size (reach total size limit start)) = .ok ()) :
    blocksFrom reels s hertz memory total size limit start =
      .ok ((chunks (reach total size limit start) size).map fun chunk =>
        instants reels s hertz (start + chunk.1) chunk.2) := by
  induction limit generalizing start with
  | zero =>
    have hnone : reach total size 0 start = 0 := by cases total <;> simp [reach]
    rw [hnone, chunks_zero hsize]
    rfl
  | succ limit ih =>
    have hblock := blockAt_eq total size limit start
    have hrest := reach_add_block total size limit start
    rw [blocksFrom]
    by_cases hzero : blockAt total size start = 0
    · -- nothing is left
      have hend : reach total size (limit + 1) start = 0 := by omega
      simp [hzero, hend, chunks_zero hsize]
    · have hfits : Room.forSamples memory (min size
          (reach total size limit (start + blockAt total size start))) = .ok () :=
        Room.forSamples_of_le (by omega) hroom
      have hpos : 0 < reach total size (limit + 1) start := by omega
      rw [← hblock] at hroom
      simp only [hzero, if_false, hroom, ih _ hfits, hrest]
      rw [chunks_of_pos hsize hpos, List.map_cons, List.map_map, ← hblock]
      refine congrArg Except.ok (congrArg₂ List.cons rfl (List.map_congr_left fun chunk hchunk => ?_))
      -- the first block is followed by others only if it is a full one
      have hfull : blockAt total size start = size := by
        by_contra hshort
        rw [show reach total size (limit + 1) start - size = 0 by omega, chunks_zero hsize] at hchunk
        exact List.not_mem_nil hchunk
      rw [Function.comp_apply, hfull, Nat.add_assoc]

/-- A block that there is no room for ends the stream. -/
theorem blocksFrom_noArray {total : Option ℤ} {start : ℕ} {fault : SizeFault}
    (hroom : Room.forSamples memory (blockAt total size start) = .error fault) (limit : ℕ) :
    blocksFrom reels s hertz memory total size (limit + 1) start = .error (.noArray fault) := by
  have hpos : ¬ blockAt total size start = 0 := by
    intro hzero
    rw [hzero, Room.forSamples_zero] at hroom
    cases hroom
  rw [blocksFrom]
  simp only [hpos, if_false, hroom]
  rfl

end Stream

/-! ### Recordings and streams -/

namespace Signal

open Recording

variable {α : Type} [Scalar α] (reels : Reels α) (s : Signal α) {rate : Rate α} {hertz seconds : α}
  {total : ℤ} {size : ℤ} (memory : ℕ)

omit [Scalar α] in
/-- A number of workers can always be staffed. -/
theorem staff_eq_ok (workers : Option ℤ) (jobs : ℕ) : ∃ staffed,
    (staff (workers.elim .nothing .value) jobs : Except (Fault α) _) = .ok staffed := by
  cases workers with
  | none => exact ⟨none, rfl⟩
  | some w => exact ⟨_, rfl⟩

/-- **What is recorded**: the values at the first instants, however they are cut into chunks and
whoever computes them. Nothing is recorded if there is no room for them. -/
theorem record_result (hrate : rate.isPositive = true) (hhertz : rate.toScalar? = .ok hertz)
    (hpos : le hertz 0.0 = false) (hseconds : lt seconds 0.0 = false)
    (htotal : toInt? (seconds * hertz) = .ok total) (hsize : 0 < size) (workers : Option ℤ) :
    (s.record reels rate (.value seconds) ⟨.value size, workers.elim .nothing .value⟩
      memory).result =
      (Room.forSamples memory total.toNat).mapError Fault.noArray >>= fun _ =>
        .ok ⟨(values reels s hertz total.toNat).toArray, hertz, hpos⟩ := by
  have hchunk : ¬ size ≤ 0 := by omega
  simp only [Signal.record, hrate, hhertz, hseconds, htotal, hchunk, Given.get, Except.mapError,
    Run.ofExcept_ok, pure_bind, Bool.not_true, Bool.false_eq_true, if_false]
  cases Room.forSamples memory total.toNat with
  | error fault => rfl
  | ok room =>
    -- whoever is set to work, the chunks come back in order
    obtain ⟨staffed, hstaff⟩ :=
      staff_eq_ok (α := α) workers (chunks total.toNat size.toNat).length
    have hsamples : ((chunks total.toNat size.toNat).map fun chunk =>
        instants reels s hertz chunk.1 chunk.2).foldl (· ++ ·) #[] =
          (values reels s hertz total.toNat).toArray := by
      have hcut := isCut_chunks reels s hertz (by omega : 0 < size.toNat) total.toNat
      rw [← Array.toList_inj, toList_foldl_append, hcut.flatMap_eq, List.nil_append]
    simp only [Run.result_bind, Run.result_enter, Run.result_ofExcept, hstaff]
    show Reel.atRate _ rate hertz = .ok _
    rw [renderChunks_eq reels s hertz hstaff, hsamples]
    exact dif_pos hpos

/-- The instants of a stream: all if it has no end, else those before its end. -/
def streamLength (duration : Option α) (hertz : α) : Except NumberFault (Option ℤ) :=
  match duration with
  | none => .ok none
  | some seconds => some <$> toInt? (seconds * hertz)

/-- **A stream begins at instant zero.** -/
theorem stream_eq_blocksFrom (hhertz : rate.toScalar? = .ok hertz) {duration : Option α}
    {total : Option ℤ} (htotal : streamLength duration hertz = .ok total) (hsize : 0 < size)
    (limit : ℕ) : s.stream reels rate duration (.value size) limit memory =
      Stream.blocksFrom reels s hertz memory total size.toNat limit 0 := by
  have hblock : ¬ size ≤ 0 := by omega
  rw [Signal.stream]
  by_cases hlimit : limit = 0
  · subst hlimit
    rfl
  · simp only [hlimit, hhertz, Given.get, Except.mapError, if_false, bind, Except.bind, hblock]
    cases duration with
    | none =>
      cases htotal
      rfl
    | some seconds =>
      simp only [streamLength] at htotal
      cases hinstants : (toInt? (seconds * hertz) : Except NumberFault ℤ) with
      | error fault =>
        -- a stream whose end is no number has no length
        rw [hinstants] at htotal
        cases htotal
      | ok n =>
        rw [hinstants] at htotal
        cases htotal
        simp only [hinstants]
        rfl

/-- **What is streamed**: the chunks of a range, as many of them as are asked for. -/
theorem stream_result (hhertz : rate.toScalar? = .ok hertz) {duration : Option α}
    {total : Option ℤ} (htotal : streamLength duration hertz = .ok total)
    (hsize : 0 < size) (limit : ℕ)
    (hroom : Room.forSamples memory (min size.toNat (Stream.reach total size.toNat limit 0)) =
      .ok ()) :
    s.stream reels rate duration (.value size) limit memory =
      .ok ((chunks (Stream.reach total size.toNat limit 0) size.toNat).map fun chunk =>
        instants reels s hertz chunk.1 chunk.2) := by
  have hblocks := Stream.blocksFrom_eq reels s hertz (by omega : 0 < size.toNat) total limit 0 hroom
  simp only [Nat.zero_add] at hblocks
  rw [stream_eq_blocksFrom reels s memory hhertz htotal hsize, hblocks]

/-- **What is recorded and what is streamed is the same**, for every size of chunks and blocks and for
any workers. A recording has the samples at the instants before its end, as many as the integer part
of the duration times the rate. The first blocks of a stream hold the first of these samples, and
those of a stream without an end the samples at all instants that they reach. The only obstacle,
whatever the size of the memory, is an array that there is no room for: the whole recording, or one
block of a stream. -/
theorem record_stream_values (reels : Reels Float) (s : Signal Float) {rate : Rate Float}
    {hertz seconds : Float} {chunkSize blockSize : ℤ} (hrate : rate.isPositive = true)
    (hhertz : rate.toScalar? = .ok hertz) (hpos : 0.0 < hertz) (hseconds : 0.0 ≤ seconds)
    (hfinite : (seconds * hertz).isFinite = true) (hchunk : 1 ≤ chunkSize) (hblock : 1 ≤ blockSize)
    (workers : Option ℤ) (memory : ℕ) :
    let count := (Binary64.integerPart (seconds * hertz)).toNat
    let block := blockSize.toNat
    let recorded := (s.record reels rate (.value seconds)
      ⟨.value chunkSize, workers.elim .nothing .value⟩ memory).result
    (Room.forSamples memory count = .ok () → ∃ reel, recorded = .ok reel ∧
      reel.samples.toList = values reels s hertz count ∧ reel.rate = hertz) ∧
    (∀ fault, Room.forSamples memory count = .error fault → recorded = .error (.noArray fault)) ∧
    (Room.forSamples memory (min block count) = .ok () → ∀ k, ∃ blocks,
      s.stream reels rate (some seconds) (.value blockSize) k memory = .ok blocks ∧
      IsCut block (values reels s hertz (min count (k * block))) blocks) ∧
    (Room.forSamples memory block = .ok () → ∀ k, ∃ blocks,
      s.stream reels rate none (.value blockSize) k memory = .ok blocks ∧
      IsCut block (values reels s hertz (k * block)) blocks ∧
      blocks.length = k ∧ ∀ b ∈ blocks, b.size = block) ∧
    (∀ fault, Room.forSamples memory (min block count) = .error fault → ∀ k, 0 < k →
      s.stream reels rate (some seconds) (.value blockSize) k memory = .error (.noArray fault)) := by
  intro count block recorded
  have hsize : 0 < block := by omega
  have hle : le hertz 0.0 = false := decide_eq_false (Binary64.not_le_of_lt hpos)
  have hlt : lt seconds 0.0 = false :=
    decide_eq_false fun hnegative => Binary64.not_le_of_lt hnegative hseconds
  have htotal : toInt? (seconds * hertz) = .ok (Binary64.integerPart (seconds * hertz)) :=
    Binary64.toInt?_of_isFinite hfinite
  have hlength : streamLength (some seconds) hertz =
      .ok (some (Binary64.integerPart (seconds * hertz))) := by
    rw [streamLength, htotal]
    rfl
  have hrecorded := record_result reels s memory hrate hhertz hle hlt htotal
    (by omega : 0 < chunkSize) workers
  refine ⟨fun hroom => ?_, fun fault hroom => ?_, fun hroom k => ?_, fun hroom k => ?_,
    fun fault hroom k hk => ?_⟩
  · refine ⟨_, hrecorded.trans (by rw [hroom]; rfl), rfl, rfl⟩
  · exact hrecorded.trans (by rw [hroom]; rfl)
  · have hreach : Stream.reach (some (Binary64.integerPart (seconds * hertz))) block k 0 =
        min count (k * block) := by rw [Stream.reach, Nat.sub_zero]
    have hstream := stream_result reels s memory hhertz hlength
      (by omega : 0 < blockSize) k (by
        rw [hreach]
        exact Room.forSamples_of_le (by omega) hroom)
    rw [hreach] at hstream
    exact ⟨_, hstream, isCut_chunks reels s hertz hsize _⟩
  · have hendless : streamLength (none : Option Float) hertz = .ok none := rfl
    have hstream := stream_result reels s memory hhertz hendless (by omega : 0 < blockSize) k
      (Room.forSamples_of_le (Nat.min_le_left _ _) hroom)
    refine ⟨_, hstream, isCut_chunks reels s hertz hsize _, ?_, ?_⟩
    · rw [List.length_map, Stream.reach, chunks_mul hsize, List.length_map, List.length_range]
    · intro b hb
      obtain ⟨chunk, hchunk, rfl⟩ := List.mem_map.1 hb
      rw [Stream.reach, chunks_mul hsize] at hchunk
      obtain ⟨j, -, rfl⟩ := List.mem_map.1 hchunk
      simp [instants, block]
  · -- the first block is the longest, so it is the first to find no room
    obtain ⟨k, rfl⟩ := Nat.exists_eq_succ_of_ne_zero hk.ne'
    have hfirst : Stream.blockAt (some (Binary64.integerPart (seconds * hertz))) block 0 =
        min block count := by simp [Stream.blockAt, count]
    rw [stream_eq_blocksFrom reels s memory hhertz hlength (by omega : 0 < blockSize)]
    exact Stream.blocksFrom_noArray reels s hertz (by rw [hfirst]; exact hroom) k

/-- The time itself, as a signal. -/
def clock : Signal Float := .node 0 (.line 0.0 1.0) Fin.elim0

/-- A second of the clock at four samples a second, recorded in chunks of three by two workers and
streamed in blocks of three, in a memory of 32 bytes. -/
theorem record_stream_values_clock :
    (Rate.whole 4 : Rate Float).isPositive = true ∧
    (Rate.whole 4 : Rate Float).toScalar? = .ok 4.0 ∧ (0.0 : Float) < 4.0 ∧ (0.0 : Float) ≤ 1.0 ∧
    (1.0 * 4.0 : Float).isFinite = true ∧
    (∃ reel, (clock.record #[] (.whole 4) (.value 1.0) ⟨.value 3, .value 2⟩ 32).result = .ok reel ∧
      reel.samples.toList = [0.0, 0.25, 0.5, 0.75]) ∧
    (∃ blocks, clock.stream #[] (.whole 4) (some 1.0) (.value 3) 2 32 = .ok blocks ∧
      IsCut 3 [0.0, 0.25, 0.5, 0.75] blocks) ∧
    ∃ blocks, clock.stream #[] (.whole 4) none (.value 2) 3 32 = .ok blocks ∧
      blocks.flatMap Array.toList = [0.0, 0.25, 0.5, 0.75, 1.0, 1.25] := by
  have hrate : (Rate.whole 4 : Rate Float).isPositive = true := rfl
  have hhertz : (Rate.whole 4 : Rate Float).toScalar? = .ok 4.0 := by decide +kernel
  have hpos : (0.0 : Float) < 4.0 := by decide +kernel
  have hseconds : (0.0 : Float) ≤ 1.0 := by decide +kernel
  have hfinite : (1.0 * 4.0 : Float).isFinite = true := by decide +kernel
  have hcount : (Binary64.integerPart (1.0 * 4.0)).toNat = 4 := by decide +kernel
  have hfour : values #[] clock 4.0 4 = [0.0, 0.25, 0.5, 0.75] := by decide +kernel
  have hsix : values #[] clock 4.0 6 = [0.0, 0.25, 0.5, 0.75, 1.0, 1.25] := by decide +kernel
  obtain ⟨hrecord, -, hstream, -, -⟩ := record_stream_values #[] clock hrate hhertz hpos hseconds
    hfinite (by decide : (1 : ℤ) ≤ 3) (by decide : (1 : ℤ) ≤ 3) (some 2) 32
  obtain ⟨-, -, -, hendless, -⟩ := record_stream_values #[] clock hrate hhertz hpos hseconds
    hfinite (by decide : (1 : ℤ) ≤ 3) (by decide : (1 : ℤ) ≤ 2) none 32
  rw [hcount] at hrecord hstream
  obtain ⟨reel, hreel, hsamples, -⟩ := hrecord rfl
  obtain ⟨blocks, hblocks, hcut⟩ := hstream rfl 2
  obtain ⟨more, hmore, hends, -⟩ := hendless rfl 3
  exact ⟨hrate, hhertz, hpos, hseconds, hfinite, ⟨reel, hreel, hsamples.trans hfour⟩,
    ⟨blocks, hblocks, hfour ▸ hcut⟩, ⟨more, hmore, hends.flatMap_eq.trans hsix⟩⟩

/-- **A recording needs room**, and for `1e19` samples there is none in any memory. -/
theorem record_needs_room :
    ¬ ∀ (reels : Reels Float) (s : Signal Float) (rate : Rate Float) (hertz seconds : Float)
      (chunkSize : ℤ) (workers : Option ℤ), rate.isPositive = true → rate.toScalar? = .ok hertz →
      0.0 < hertz → 0.0 ≤ seconds → (seconds * hertz).isFinite = true → 1 ≤ chunkSize →
      ∃ (memory : ℕ) (reel : Reel Float), (s.record reels rate (.value seconds)
          ⟨.value chunkSize, workers.elim .nothing .value⟩ memory).result = .ok reel ∧
        reel.samples.toList =
          values reels s hertz (Binary64.integerPart (seconds * hertz)).toNat := by
  intro h
  have hrate : (Rate.exact 1.0 : Rate Float).isPositive = true := by decide +kernel
  have hpos : le (1.0 : Float) 0.0 = false := by decide +kernel
  have hseconds : lt (1e19 : Float) 0.0 = false := by decide +kernel
  have htotal : toInt? (1e19 * 1.0 : Float) = .ok 10000000000000000000 := by decide +kernel
  obtain ⟨memory, reel, hreel, -⟩ := h #[] clock (.exact 1.0) 1.0 1e19 1 none hrate rfl (by decide +kernel)
    (by decide +kernel) (by decide +kernel) le_rfl
  rw [record_result _ _ memory hrate rfl hpos hseconds htotal one_pos,
    Room.forSamples_of_limit_le (by decide)] at hreel
  cases hreel

end Signal

end Polyphony
