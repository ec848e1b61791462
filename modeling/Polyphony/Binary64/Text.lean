import Polyphony.Binary64.Rounded

/-!
# The text of a double

Numbers in messages and descriptions are written with the shortest digits that read back. The
point is placed positionally while the first digit stands between the fourth place after the point
and the sixteenth before it; otherwise one digit, the rest after a point, and an exponent of at
least two digits with its sign. A number without a fraction keeps `.0`.

* `text`: the text of a double.
* `fixed`: a double with a given number of places, halves to the even neighbour.
-/

namespace Polyphony.Binary64

/-- Where positional notation ends, and how an exponent is written. -/
structure Layout where
  /-- The least power of ten of the first digit that is written positionally. -/
  least : Int
  /-- The greatest. -/
  greatest : Int
  /-- The least number of digits in an exponent. -/
  exponentDigits : Nat

/-- **The notation of messages**: `0.0001` and `1e-05`, `1000000000000000.0` and `1e+16`. -/
def messages : Layout := ⟨-4, 15, 2⟩

/-- The text of a decimal without a sign. -/
def Layout.decimal (n : Layout) (d : Decimal) : String :=
  let digits := (toString d.digits).toList
  let first : Int := d.power + digits.length - 1
  if n.least ≤ first ∧ first ≤ n.greatest then
    if first < 0 then "0." ++ zeros (first.natAbs - 1) ++ String.ofList digits
    else
      let whole := first.toNat + 1
      let fraction := digits.drop whole
      String.ofList (digits.take whole) ++ zeros (whole - digits.length) ++ "." ++
        (if fraction.isEmpty then "0" else String.ofList fraction)
  else
    let fraction := digits.drop 1
    String.ofList (digits.take 1) ++ (if fraction.isEmpty then "" else "." ++ String.ofList fraction)
      ++ signedExponent n.exponentDigits first

/-- The text of a double without its sign. -/
def unsignedText (x : Float) : String :=
  if x.isNaN then "nan"
  else if x.isInf then "inf"
  else if (magnitude x).significand = 0 then "0.0"
  else messages.decimal (magnitude x).shortest

/-- **The text of a double.** The undefined number has no sign. -/
def text (x : Float) : String :=
  if isNegative x && !x.isNaN then "-" ++ unsignedText x else unsignedText x

/-- The text of a double with `places` digits after the point. -/
def fixed (places : Nat) (x : Float) : String :=
  let unsigned :=
    if x.isNaN then "nan"
    else if x.isInf then "inf"
    else
      let (num, den) := (magnitude x).toFraction
      fixedText false places num den
  if isNegative x && !x.isNaN then "-" ++ unsigned else unsigned

end Polyphony.Binary64
