import Polyphony.Fault

/-!
# Sixteen-bit samples

Samples travel as signed words of sixteen bits, the low byte first. Full scale is `32767`: a sample
is clipped to `[-1, 1]`, scaled, and loses its fraction toward zero; a word is read by dividing.

* `Pcm.code`, `Pcm.encode`: samples to words and bytes.
* `Pcm.decode?`: bytes to samples.
-/

namespace Polyphony.Pcm

open Scalar

variable {α : Type} [Scalar α]

/-- The scalar of an integer of few digits. -/
def ofInt : Int → α
  | .ofNat n => ofNat n
  | .negSucc n => -(ofNat (n + 1))

/-- Full scale. -/
def fullScale : α := 32767.0

/-- **The word of a sample.** The undefined number is silence. -/
def code (x : α) : Int := (toInt? (clip x * fullScale)).toOption.getD 0

/-- The two bytes of a word, the low one first. -/
def wordBytes (word : Int) : List UInt8 :=
  let n := (word % 65536).toNat
  [(n % 256).toUInt8, (n / 256).toUInt8]

/-- The word of two bytes. -/
def ofBytes (low high : UInt8) : Int :=
  let n := low.toNat + 256 * high.toNat
  if n < 32768 then n else n - 65536

/-- **Samples as bytes.** -/
def encode (samples : List α) : List UInt8 := samples.flatMap fun x => wordBytes (code x)

/-- The words of bytes, taken two by two. A single byte at the end is left out. -/
def words : List UInt8 → List Int
  | low :: high :: rest => ofBytes low high :: words rest
  | _ => []

/-- **Bytes as samples**, if there are any and none is left over. -/
def decode? (bytes : List UInt8) : Except (Fault α) (List α) :=
  if bytes.length % 2 ≠ 0 then .error (.oddBytes bytes.length)
  else if bytes.isEmpty then .error .noBytes
  else .ok ((words bytes).map fun w => ofInt w / fullScale)

end Polyphony.Pcm
