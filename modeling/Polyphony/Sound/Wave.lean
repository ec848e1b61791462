import Polyphony.Signal.Ugen
import Polyphony.Sound.Pcm

/-!
# Wave files

A wave file holds a header of 44 bytes and the samples of one channel in words of sixteen bits. A
sample is scaled to thirty-two bits, rounded to the nearest integer (a half to the even one), and
loses its lower half; what reaches the greatest word of thirty-two bits is cut off there.

* `Wave.code`: the word of a sample.
* `Wave.file?`: the bytes of a file.
-/

namespace Polyphony.Wave

open Scalar

variable {α : Type} [Scalar α]

/-- The integer nearest to a scalar, a half going to the even neighbour. -/
def nearest (v : α) : Int :=
  let below := (toInt? (floor v)).toOption.getD 0
  let rest := v - floor v
  if lt rest 0.5 then below
  else if lt 0.5 rest then below + 1
  else if below % 2 = 0 then below
  else below + 1

/-- **The word of a sample.** -/
def code (x : α) : Int :=
  let v := clip x * 2147483648.0
  if le 2147483647.0 v then 32767 else nearest v / 65536

/-- The bytes of a number, the lowest first. -/
def littleEndian : Nat → Nat → List UInt8
  | 0, _ => []
  | width + 1, n => (n % 256).toUInt8 :: littleEndian width (n / 256)

private def ascii (s : String) : List UInt8 := s.toList.map fun c => c.toNat.toUInt8

/-- The header of a file with one channel at a rate in hertz. -/
def header (rate samples : Nat) : List UInt8 :=
  ascii "RIFF" ++ littleEndian 4 (36 + 2 * samples) ++ ascii "WAVE" ++
    ascii "fmt " ++ littleEndian 4 16 ++ littleEndian 2 1 ++ littleEndian 2 1 ++
    littleEndian 4 rate ++ littleEndian 4 (2 * rate) ++ littleEndian 2 2 ++ littleEndian 2 16 ++
    ascii "data" ++ littleEndian 4 (2 * samples)

/-- A rate as a whole number of hertz. -/
def hertz? (rate : α) : Except (Fault α) Int := (toInt? rate).mapError .number

/-- The rate that a file notes: a whole number of hertz that fits into a signed word. -/
def fileRate? (rate : α) : Except (Fault α) Nat := do
  let hertz ← hertz? rate
  if 2147483647 < hertz then throw (.rateTooLarge hertz)
  if hertz < 1 then throw .rateTooSmall
  return hertz.toNat

/-- **The file of a reel.** -/
def file? (r : Reel α) : Except (Fault α) (List UInt8) := do
  let rate ← fileRate? r.rate
  return header rate r.samples.size ++ r.samples.toList.flatMap fun x => Pcm.wordBytes (code x)

end Polyphony.Wave
