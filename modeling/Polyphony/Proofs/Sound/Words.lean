import Mathlib.Data.Int.Notation
import Mathlib.Data.Nat.Notation
import Mathlib.Logic.Basic
import Polyphony.Kernel

/-!
# Words of sixteen bits

A word that fits into sixteen bits is written as two bytes and read back, and so is a list of them. A kernel
is made of the words in a list of bytes.

* `Pcm.ofBytes_wordBytes`, `Pcm.wordBytes_ofBytes`: **a word and its bytes determine each other.**
* `Pcm.words_flatMap`, `Pcm.flatMap_words`: the same for lists.
* `Kernel.exists_ofPcm`, `Kernel.exists_fault_ofPcm`: which bytes make a kernel, and what it holds.
-/

namespace Polyphony

variable {α : Type} [Scalar α]

namespace Pcm

/-- Whether a word fits into sixteen bits, with a sign. -/
def Fits (w : ℤ) : Prop := -32768 ≤ w ∧ w ≤ 32767

variable {bytes : List UInt8} {ws : List ℤ}

theorem fits_ofBytes (low high : UInt8) : Fits (ofBytes low high) := by
  have hlow := low.toNat_lt
  have hhigh := high.toNat_lt
  unfold Fits ofBytes
  dsimp only
  split <;> omega

theorem fits_of_mem_words : ∀ {bytes : List UInt8}, ∀ w ∈ words bytes, Fits w
  | low :: high :: rest, w, h => by
    rcases List.mem_cons.1 h with rfl | h
    · exact fits_ofBytes low high
    · exact fits_of_mem_words w h
  | [], _, h | [_], _, h => by cases h

theorem toNat_lowByte (n : ℕ) : ((n % 256).toUInt8).toNat = n % 256 :=
  Nat.mod_eq_of_lt (Nat.mod_lt _ (by omega))

/-- **A word is read from its bytes.** -/
theorem ofBytes_wordBytes {w : ℤ} (h : Fits w) :
    ∃ low high, wordBytes w = [low, high] ∧ ofBytes low high = w := by
  refine ⟨_, _, rfl, ?_⟩
  obtain ⟨hlow, hhigh⟩ := h
  have hbyte : ((w % 65536).toNat / 256).toUInt8.toNat = (w % 65536).toNat / 256 :=
    Nat.mod_eq_of_lt (by omega)
  have hsum : (w % 65536).toNat % 256 + 256 * ((w % 65536).toNat / 256) = (w % 65536).toNat :=
    Nat.mod_add_div _ _
  unfold ofBytes
  simp only [toNat_lowByte, hbyte, hsum]
  split <;> omega

/-- **Bytes are those of the word that is read from them.** -/
theorem wordBytes_ofBytes (low high : UInt8) : wordBytes (ofBytes low high) = [low, high] := by
  have hlow := low.toNat_lt
  have hhigh := high.toNat_lt
  have hcode : (ofBytes low high % 65536).toNat = low.toNat + 256 * high.toNat := by
    unfold ofBytes
    dsimp only
    split <;> omega
  have hfirst : ((low.toNat + 256 * high.toNat) % 256).toUInt8 = low := by
    rw [Nat.add_mul_mod_self_left, Nat.mod_eq_of_lt hlow]
    exact UInt8.ofNat_toNat
  have hsecond : ((low.toNat + 256 * high.toNat) / 256).toUInt8 = high := by
    rw [Nat.add_mul_div_left _ _ (by omega), Nat.div_eq_of_lt hlow, Nat.zero_add]
    exact UInt8.ofNat_toNat
  show [((ofBytes low high % 65536).toNat % 256).toUInt8, _] = _
  rw [hcode, hfirst, hsecond]

@[simp] theorem length_flatMap_wordBytes (ws : List ℤ) :
    (ws.flatMap wordBytes).length = 2 * ws.length := by
  induction ws with
  | nil => rfl
  | cons w ws ih =>
    rw [List.flatMap_cons, List.length_append, ih, List.length_cons, Nat.mul_succ, Nat.add_comm]
    rfl

/-- **Words are read from their bytes.** -/
theorem words_flatMap (h : ∀ w ∈ ws, Fits w) : words (ws.flatMap wordBytes) = ws := by
  induction ws with
  | nil => rfl
  | cons w ws ih =>
    obtain ⟨low, high, hbytes, hword⟩ := ofBytes_wordBytes (h w List.mem_cons_self)
    rw [List.flatMap_cons, hbytes]
    show ofBytes low high :: words (ws.flatMap wordBytes) = _
    rw [hword, ih fun v hv => h v (List.mem_cons_of_mem w hv)]

/-- **Bytes are those of the words that are read from them**, unless one is left over. -/
theorem flatMap_words :
    ∀ {bytes : List UInt8}, bytes.length % 2 = 0 → (words bytes).flatMap wordBytes = bytes
  | [], _ => rfl
  | [_], h => by cases h
  | low :: high :: rest, h => by
    have hrest : rest.length % 2 = 0 := by
      simp only [List.length_cons] at h
      omega
    rw [words, List.flatMap_cons, wordBytes_ofBytes, flatMap_words hrest]
    rfl

theorem length_words (h : bytes.length % 2 = 0) : 2 * (words bytes).length = bytes.length := by
  rw [← length_flatMap_wordBytes, flatMap_words h]

/-- Samples are written word by word. -/
theorem encode_eq (xs : List α) : encode xs = (xs.map code).flatMap wordBytes := by
  rw [encode, List.flatMap_map]

theorem length_encode (xs : List α) : (encode xs).length = 2 * xs.length := by
  rw [encode_eq, length_flatMap_wordBytes, List.length_map]

theorem length_encode_mod_two (xs : List α) : (encode xs).length % 2 = 0 := by
  rw [length_encode]
  omega

theorem encode_ne_nil {xs : List α} (h : xs ≠ []) : encode xs ≠ [] := by
  rw [← List.length_pos_iff] at h ⊢
  rw [length_encode]
  omega

end Pcm

namespace Kernel

variable {bytes : List UInt8} {id : ℕ} {name : Option String}

/-- **Bytes make a kernel** if there are any and they come in pairs. It holds their words, scaled. -/
theorem exists_ofPcm (id : ℕ) (heven : bytes.length % 2 = 0) (hne : bytes ≠ []) (name : Option String) :
    ∃ k : Kernel α, ofPcm id bytes name = .ok k ∧
      k.samples.toList = (Pcm.words bytes).map fun w => (Pcm.ofInt w / Pcm.fullScale : α) := by
  have hwords := Pcm.length_words heven
  have hlength := List.length_pos_iff.2 hne
  have hsize : 0 < ((Pcm.words bytes).map fun w =>
      (Pcm.ofInt w / Pcm.fullScale : α)).toArray.size := by
    rw [List.size_toArray, List.length_map]
    omega
  refine ⟨⟨id, _, name, hsize⟩, ?_, rfl⟩
  rw [ofPcm, Pcm.decode?, if_neg (not_not.2 heven), if_neg (by simpa using hne)]
  exact dif_pos hsize

/-- **Other bytes are a fault of the file.** -/
theorem exists_fault_ofPcm (id : ℕ) (h : bytes = [] ∨ bytes.length % 2 ≠ 0) (name : Option String) :
    ∃ fault : Fault α, ofPcm id bytes name = .error fault ∧ fault.kind = .resource := by
  by_cases heven : bytes.length % 2 = 0
  · obtain rfl := h.resolve_right (not_not.2 heven)
    exact ⟨.noBytes, rfl, rfl⟩
  · refine ⟨.oddBytes bytes.length, ?_, rfl⟩
    rw [ofPcm, Pcm.decode?, if_pos heven]
    rfl

theorem kind_of_ofPcm {fault : Fault α} (h : ofPcm id bytes name = .error fault) :
    fault.kind = .resource := by
  by_cases hbytes : bytes = [] ∨ bytes.length % 2 ≠ 0
  · obtain ⟨fault', hfault, hkind⟩ := exists_fault_ofPcm (α := α) id hbytes name
    rw [hfault] at h
    cases h
    exact hkind
  · rw [not_or, not_not] at hbytes
    obtain ⟨k, hk, -⟩ := exists_ofPcm (α := α) id hbytes.2 hbytes.1 name
    rw [hk] at h
    cases h

end Kernel

end Polyphony
