import Polyphony.Text.Blank
import Polyphony.Text.Digit

/-!
# Reading numerals

Numbers on a command line may be surrounded by blanks, may use the decimal digits of any script,
and may have single underscores between digits.

* `readInteger?`: an integer with an optional sign.
* `readDouble?`: a double, as digits with an optional point and exponent, or as a word for infinity
  or for the undefined number.
-/

namespace Polyphony.Text

/-- A character beyond ASCII as the ASCII character it stands for in a numeral: a blank, a digit, or
nothing that a numeral may hold. -/
def numeralChar (c : Char) : Char :=
  if c.toNat < 128 then c
  else if isBlank c then ' '
  else
    match digitValue? c with
    | some d => Char.ofNat (48 + d)
    | none => '?'

/-- The blanks that may stand around a numeral. -/
def isPadding (c : Char) : Bool := c == ' ' || (9 ≤ c.toNat && c.toNat ≤ 13)

/-- A numeral in ASCII, without the blanks around it. -/
def numeralBody (cs : List Char) : List Char :=
  (((cs.map numeralChar).dropWhile isPadding).reverse.dropWhile isPadding).reverse

/-- A sign at the head, and the rest. -/
def splitSign : List Char → Bool × List Char
  | '-' :: rest => (true, rest)
  | '+' :: rest => (false, rest)
  | rest => (false, rest)

/-- The text without its underscores, if each of them stands between two digits. -/
def dropUnderscores : Option Char → List Char → Option (List Char)
  | _, [] => some []
  | before, '_' :: rest =>
    let between := (before.map Char.isDigit).getD false && (rest.head?.map Char.isDigit).getD false
    if between then dropUnderscores (some '_') rest else none
  | _, c :: rest => (dropUnderscores (some c) rest).map (c :: ·)

/-- The greatest number of digits of an integer that is read. -/
def integerDigitLimit : Nat := 4300

/-- **An integer.** -/
def readInteger? (cs : List Char) : Option Int := do
  let (negative, body) := splitSign (numeralBody cs)
  let digits ← dropUnderscores none body
  if digits.isEmpty || !digits.all Char.isDigit || integerDigitLimit < digits.length then none
  else
    let n : Int := ofDigits digits
    return if negative then -n else n

/-- A decimal with its point moved: `digits * 10 ^ power`, rounded to a double. What is far beyond
the range is not computed. -/
def scaled (digits : List Char) (power : Int) : Float :=
  let m := ofDigits digits
  if m = 0 then 0.0
  else if 400 < power then 1.0 / 0.0
  else if power + digits.length < -400 then 0.0
  else if power < 0 then Float.ofScientific m true power.natAbs
  else Float.ofScientific m false power.natAbs

/-- The exponent of a numeral, from its `e` on. -/
def readExponent? : List Char → Option Int
  | [] => some 0
  | c :: rest =>
    let (negative, digits) := splitSign rest
    if c.toLower ≠ 'e' || digits.isEmpty || !digits.all Char.isDigit then none
    else
      let n : Int := ofDigits digits
      some (if negative then -n else n)

/-- A double without a sign. -/
def readUnsigned? (body : List Char) : Option Float := do
  let word := body.map Char.toLower
  if word = ['n', 'a', 'n'] then return 0.0 / 0.0
  if word = ['i', 'n', 'f'] || word = ['i', 'n', 'f', 'i', 'n', 'i', 't', 'y'] then return 1.0 / 0.0
  let plain ← dropUnderscores none body
  let whole := plain.takeWhile Char.isDigit
  let rest := plain.dropWhile Char.isDigit
  let (fraction, rest) :=
    match rest with
    | '.' :: rest => (rest.takeWhile Char.isDigit, rest.dropWhile Char.isDigit)
    | _ => ([], rest)
  if whole.isEmpty && fraction.isEmpty then none
  else
    let exponent ← readExponent? rest
    return scaled (whole ++ fraction) (exponent - fraction.length)

/-- **A double.** -/
def readDouble? (cs : List Char) : Option Float := do
  let (negative, body) := splitSign (numeralBody cs)
  let x ← readUnsigned? body
  return if negative then -x else x

end Polyphony.Text
