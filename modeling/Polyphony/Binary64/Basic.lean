/-!
# Binary64 numbers, taken apart

A finite double is `m · 2 ^ q` up to its sign, with a natural `m` below `2 ^ 53` and an integer
`q`. Everything exact that is said about a double (its text, its integer part, its floor) goes
through these two numbers, so that a proof never has to look at a machine instruction.

* `magnitude`: the pair `m`, `q`.
* `Magnitude.integerPart`: the natural number below the point.
* `integerPart`: the signed integer part, toward zero.
* `floor`: the floor as a double.
-/

namespace Polyphony.Binary64

/-- The value `significand * 2 ^ exponent`. -/
structure Magnitude where
  significand : Nat
  exponent : Int
  deriving DecidableEq

/-- The eleven bits of the exponent. -/
def exponentField (x : Float) : Nat := x.toBits.toNat / Nat.pow 2 52 % Nat.pow 2 11

/-- The fifty-two bits of the fraction. -/
def fractionField (x : Float) : Nat := x.toBits.toNat % Nat.pow 2 52

/-- Whether the sign bit is set, as it is for `-0.0`. -/
def isNegative (x : Float) : Bool := x.toBits.toNat / Nat.pow 2 63 == 1

/-- The size of a finite double. A zero exponent field marks the numbers without a leading one. -/
def magnitude (x : Float) : Magnitude :=
  if exponentField x = 0 then ⟨fractionField x, -1074⟩
  else ⟨Nat.pow 2 52 + fractionField x, exponentField x - 1075⟩

/-- **The digits before the point.** -/
def Magnitude.integerPart (m : Magnitude) : Nat :=
  match m.exponent with
  | .ofNat q => m.significand * Nat.pow 2 q
  | .negSucc q => m.significand / Nat.pow 2 (q + 1)

/-- The size as a fraction: numerator and denominator. -/
def Magnitude.toFraction (m : Magnitude) : Nat × Nat :=
  match m.exponent with
  | .ofNat q => (m.significand * Nat.pow 2 q, 1)
  | .negSucc q => (m.significand, Nat.pow 2 (q + 1))

/-- The integer part of a finite double, toward zero. -/
def integerPart (x : Float) : Int :=
  if isNegative x then -(magnitude x).integerPart else (magnitude x).integerPart

/-- **The floor of a double**, as a double. From `2 ^ 52` on every double is an integer; below it
the conversion to a word drops the fraction. Zeros keep their sign. -/
def floor (x : Float) : Float :=
  if x.abs < 4503599627370496.0 then
    if x < 0.0 then
      let whole := (-x).toUInt64.toFloat
      if whole == -x then x else -(whole + 1.0)
    else if x == 0.0 then x
    else x.toUInt64.toFloat
  else x

/-- The power `2 ^ n` as a double, for `n < 1024`; powers below the least double are zero. -/
def twoToThe (n : Int) : Float :=
  if -1022 ≤ n then .ofBits ((n + 1023).toNat * Nat.pow 2 52).toUInt64
  else if -1074 ≤ n then .ofBits (Nat.pow 2 (n + 1074).toNat).toUInt64
  else 0.0

/-- The least natural number that rounds to no finite double. -/
def overflowThreshold : Nat := Nat.pow 2 1024 - Nat.pow 2 970

end Polyphony.Binary64
