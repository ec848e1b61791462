import Polyphony.Binary64.Shortest

/-!
# Rounded decimals

A number that is not negative, given as a fraction, is written with a chosen number of digits,
rounded to the nearest decimal, a half to the even one. A point without digits after it is left out,
unless it is to be kept.

* `fixedText`: so many digits after the point.
* `exponentText`: one digit, so many after the point, and an exponent.
* `generalText`: so many digits in all, by the shorter of the two.
-/

namespace Polyphony.Binary64

def zeros (n : Nat) : String := String.ofList (List.replicate n '0')

/-- An exponent with its sign and at least `width` digits. -/
def signedExponent (width : Nat) (e : Int) : String :=
  let digits := toString e.natAbs
  (if e < 0 then "e-" else "e+") ++ zeros (width - digits.length) ++ digits

/-- The quotient rounded to the nearest natural number, a half to the even one. -/
def divNearest (num den : Nat) : Nat :=
  let q := num / den
  let rest := 2 * (num % den)
  if rest < den ∨ (rest = den ∧ q % 2 = 0) then q else q + 1

/-- The number of units of `10 ^ power` in a fraction, rounded. -/
def unitsOf (power : Int) (num den : Nat) : Nat :=
  match power with
  | .ofNat p => divNearest num (den * Nat.pow 10 p)
  | .negSucc p => divNearest (num * Nat.pow 10 (p + 1)) den

/-- Digits with a point after the first `whole` of them. -/
def pointed (keepPoint : Bool) (whole : Nat) (digits : List Char) : String :=
  let fraction := digits.drop whole
  String.ofList (digits.take whole) ++
    (if fraction.isEmpty && !keepPoint then "" else "." ++ String.ofList fraction)

/-- A natural number in at least `width` digits. -/
def paddedDigits (width n : Nat) : List Char :=
  let digits := Nat.toDigits 10 n
  List.replicate (width - digits.length) '0' ++ digits

/-- **A fraction with `places` digits after the point.** -/
def fixedText (keepPoint : Bool) (places num den : Nat) : String :=
  let digits := paddedDigits (places + 1) (unitsOf (-places) num den)
  pointed keepPoint (digits.length - places) digits

/-- The first `count` digits of a fraction, rounded, and the power of ten of the first of them. -/
def leadingDigits (count num den : Nat) : List Char × Int :=
  if num = 0 then (List.replicate count '0', 0)
  else
    let first := leadingPower num den
    let digits := Nat.toDigits 10 (unitsOf (first + 1 - count) num den)
    (digits.take count, first + digits.length - count)

/-- **A fraction with one digit before the point, `places` after it, and an exponent.** -/
def exponentText (keepPoint : Bool) (places num den : Nat) : String :=
  let (digits, power) := leadingDigits (places + 1) num den
  pointed keepPoint 1 digits ++ signedExponent 2 power

/-- Digits without the zeros at their end, but at least `least` of them. -/
def dropFinalZeros (least : Nat) (digits : List Char) : List Char :=
  digits.take least ++ ((digits.drop least).reverse.dropWhile (· == '0')).reverse

/-- **A fraction with `count` digits**, with an exponent if the first digit stands after the fourth
place behind the point or beyond the last digit. Zeros at the end of the fraction are left out with
the point, and kept with it. -/
def generalText (keepPoint : Bool) (count num den : Nat) : String :=
  let count := max count 1
  let (digits, power) := leadingDigits count num den
  let trim (whole : Nat) (digits : List Char) : List Char :=
    if keepPoint then digits else dropFinalZeros whole digits
  if power < -4 ∨ (count : Int) ≤ power then
    pointed keepPoint 1 (trim 1 digits) ++ signedExponent 2 power
  else if power < 0 then
    let digits := List.replicate power.natAbs '0' ++ digits
    pointed keepPoint 1 (trim 1 digits)
  else
    let whole := power.toNat + 1
    pointed keepPoint whole (trim whole digits)

end Polyphony.Binary64
