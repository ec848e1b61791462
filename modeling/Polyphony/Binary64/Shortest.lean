import Polyphony.Binary64.Basic

/-!
# The shortest decimal of a double

Among the decimals that read back as a given double the shortest is chosen, and of the shortest
the nearest, a tie going to the even digit. A double stands for the interval of numbers that round
to it: half a unit of its last place to both sides, a quarter below where the unit changes, with
the ends included for an even significand. The search tries one digit, two digits, … up to
seventeen, which always suffice; on each grid the two neighbours of the number decide, since a grid
point inside the interval has one of them between itself and the number.

* `shortest`: the digits, as a natural number without final zeros, and the power of ten.
-/

namespace Polyphony.Binary64

/-- The number of decimal digits. -/
def decimalLength (n : Nat) : Nat := (Nat.toDigits 10 n).length

/-- The power of ten of the first digit of `num / den`. -/
def leadingPower (num den : Nat) : Int :=
  if den ≤ num then decimalLength (num / den) - 1 else -(decimalLength ((den - 1) / num))

/-- A decimal `digits * 10 ^ power`. -/
structure Decimal where
  digits : Nat
  power : Int
  deriving DecidableEq

/-- The interval of numbers that round to one double, as numerators over one denominator. -/
structure RoundingInterval where
  low : Nat
  value : Nat
  high : Nat
  denominator : Nat
  /-- Whether the ends themselves round to the double. -/
  closed : Bool

/-- The numbers that round to the double `m`. Only a power of two has a smaller unit below it, and
the least exponent has none. -/
def Magnitude.roundingInterval (m : Magnitude) : RoundingInterval :=
  let below := if m.significand = Nat.pow 2 52 ∧ -1074 < m.exponent then 1 else 2
  let (scale, denominator) :=
    match m.exponent with
    | .ofNat q => (Nat.pow 2 q, 4)
    | .negSucc q => (1, 4 * Nat.pow 2 (q + 1))
  ⟨(4 * m.significand - below) * scale, 4 * m.significand * scale,
    (4 * m.significand + 2) * scale, denominator, m.significand % 2 == 0⟩

/-- Whether `num / den` rounds to the double of the interval. -/
def RoundingInterval.admits (r : RoundingInterval) (num den : Nat) : Bool :=
  let point := num * r.denominator
  if r.closed then r.low * den ≤ point && point ≤ r.high * den
  else r.low * den < point && point < r.high * den

/-- The decimal on the grid of `10 ^ power` that reads back, if one of the two neighbours does: of
both the nearer one, and between equally near ones the even one. -/
def RoundingInterval.onGrid? (r : RoundingInterval) (power : Int) : Option Decimal :=
  let (up, down) :=
    match power with
    | .ofNat p => (Nat.pow 10 p, 1)
    | .negSucc p => (1, Nat.pow 10 (p + 1))
  let lower := r.value * down / (r.denominator * up)
  let fits (d : Nat) : Bool := r.admits (d * up) down
  let rest := 2 * (r.value * down - lower * (r.denominator * up))
  let unit := r.denominator * up
  let nearer : Bool := rest < unit || (rest == unit && lower % 2 == 0)
  if fits lower && (!fits (lower + 1) || nearer) then some ⟨lower, power⟩
  else if fits (lower + 1) then some ⟨lower + 1, power⟩
  else none

/-- Final zeros moved into the power. -/
def Decimal.trim (d : Decimal) : Decimal :=
  let zeros := ((Nat.toDigits 10 d.digits).reverse.takeWhile (· == '0')).length
  ⟨d.digits / Nat.pow 10 zeros, d.power + zeros⟩

/-- **The shortest decimal that reads back as the double**, for a size other than zero. -/
def Magnitude.shortest (m : Magnitude) : Decimal :=
  let r := m.roundingInterval
  let first := leadingPower r.value r.denominator
  let grids := (List.range 17).map fun (k : Nat) => first - k
  ((grids.findSome? r.onGrid?).getD ⟨r.value, 0⟩).trim

end Polyphony.Binary64
