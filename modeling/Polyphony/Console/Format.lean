import Polyphony.Fault
import Polyphony.Text.Digit
import Polyphony.Text.Letter

/-!
# Formats

A format is a text with fields, `%(key)s` and the like: the key of a value in round brackets, then
flags, a least width, a precision after a point, and the letter of a conversion; two percent signs
stand for one. A format is recognised if a field seems to stand somewhere in it. That is less than
being right: a format with a mistake is recognised too, but no message can be written with it.

* `Console.Format`: formats, piece by piece.
* `Console.Format.read`: the format of a text.
-/

namespace Polyphony.Console

/-- How a real number is written. -/
inductive RealStyle where
  /-- With a number of digits after the point. -/
  | fixed
  /-- With an exponent. -/
  | exponent
  /-- With a number of digits in all. -/
  | general
  deriving DecidableEq

/-- What becomes of a value. -/
inductive Conversion where
  | plain
  | quoted
  /-- Quoted, with only ASCII characters. -/
  | quotedAscii
  /-- An integer to a base, in small letters or capitals. -/
  | integer (base : Nat) (capitals : Bool)
  | real (style : RealStyle) (capitals : Bool)
  | character
  deriving DecidableEq

/-- The conversion of a letter. -/
def Conversion.ofLetter? : Char → Option Conversion
  | 's' => some .plain
  | 'r' => some .quoted
  | 'a' => some .quotedAscii
  | 'd' | 'i' | 'u' => some (.integer 10 false)
  | 'o' => some (.integer 8 false)
  | 'x' => some (.integer 16 false)
  | 'X' => some (.integer 16 true)
  | 'e' => some (.real .exponent false)
  | 'E' => some (.real .exponent true)
  | 'f' => some (.real .fixed false)
  | 'F' => some (.real .fixed true)
  | 'g' => some (.real .general false)
  | 'G' => some (.real .general true)
  | 'c' => some .character
  | _ => none

/-- The flags that may stand after a key. -/
structure Flags where
  /-- `-`: padded on the right. -/
  left : Bool
  /-- `+`: a sign in any case. -/
  sign : Bool
  /-- A blank where a sign could stand. -/
  blank : Bool
  /-- `#`: the base of an integer, or a point in any case. -/
  full : Bool
  /-- `0`: numbers padded with zeros. -/
  zeros : Bool

def isFlag (c : Char) : Bool := c ∈ ['#', '0', '+', ' ', '-']

def Flags.ofChars (cs : List Char) : Flags :=
  ⟨cs.contains '-', cs.contains '+', cs.contains ' ', cs.contains '#', cs.contains '0'⟩

/-- **A field.** -/
structure Field where
  key : List Char
  flags : Flags
  width : Nat
  precision : Option Nat
  conversion : Conversion

/-- A piece of a format. -/
inductive Piece where
  | literal (c : Char)
  | field (field : Field)
  /-- A mistake. -/
  | broken

/-- **Formats**, piece by piece. -/
abbrev Format := List Piece

/-- The greatest width or precision. -/
def greatestCount : Nat := Nat.pow 2 31 - 1

/-- The number that some digits spell, unless it is too large. -/
def count? (digits : List Char) : Option Nat :=
  let n := Text.ofDigits digits
  if n ≤ greatestCount then some n else none

/-- What follows a point, as a precision, and the rest. -/
def splitPrecision : List Char → List Char × List Char
  | '.' :: rest => ('.' :: rest.takeWhile Char.isDigit, rest.dropWhile Char.isDigit)
  | rest => ([], rest)

/-- A field from its opening bracket on, and what follows it. Between precision and conversion one
letter is skipped that tells the size of a number. -/
def field? : List Char → Option (Field × List Char)
  | '(' :: rest => do
    let key := rest.takeWhile (· ≠ ')')
    let rest := (rest.dropWhile (· ≠ ')')).drop 1
    let flags := Flags.ofChars (rest.takeWhile isFlag)
    let rest := rest.dropWhile isFlag
    let width ← count? (rest.takeWhile Char.isDigit)
    let (precision, rest) := splitPrecision (rest.dropWhile Char.isDigit)
    let places ← count? precision.tail
    let rest := if rest.head?.any (· ∈ ['h', 'l', 'L']) then rest.drop 1 else rest
    let conversion ← rest.head?.bind Conversion.ofLetter?
    return (⟨key, flags, width, if precision.isEmpty then none else some places, conversion⟩,
      rest.drop 1)
  | _ => none

/-- The pieces of a text of at most `fuel` characters, up to the first mistake. -/
def pieces : Nat → List Char → Format
  | 0, _ | _, [] => []
  | fuel + 1, '%' :: '%' :: rest => .literal '%' :: pieces fuel rest
  | fuel + 1, '%' :: rest =>
    match field? rest with
    | some (field, rest) => .field field :: pieces fuel rest
    | none => [.broken]
  | fuel + 1, c :: rest => .literal c :: pieces fuel rest

/-- What follows a star or digits, where there are any. -/
def skipCount : List Char → List Char
  | '*' :: rest => rest
  | rest => rest.dropWhile Text.isDigit

/-- The letters of conversions in any case, some letters beyond ASCII being other cases of `i` and
`s`, and the percent sign. -/
def isRecognisedLetter (c : Char) : Bool :=
  c.toLower ∈ "diouxefgcrsa%".toList || c ∈ ['İ', 'ı', 'ſ']

/-- Whether a text seems to begin with a field. -/
def seemsField : List Char → Bool
  | '%' :: '(' :: rest =>
    let key := rest.takeWhile Text.isNameChar
    match rest.dropWhile Text.isNameChar with
    | ')' :: rest =>
      let rest := skipCount (rest.dropWhile isFlag)
      let rest :=
        match rest with
        | '.' :: after => if (skipCount after).length < after.length then skipCount after else rest
        | _ => rest
      !key.isEmpty && rest.head?.any isRecognisedLetter
    | _ => false
  | _ => false

/-- Whether a field seems to stand somewhere in a text. -/
def isRecognised : List Char → Bool
  | [] => false
  | c :: rest => seemsField (c :: rest) || isRecognised rest

/-- **The format of a text.** An empty one shows the message alone. -/
def Format.read {α : Type} (s : String) : Except (Fault α) Format :=
  let cs := if s.isEmpty then "%(message)s".toList else s.toList
  if isRecognised cs then .ok (pieces cs.length cs) else .error (.invalidFormat s)

end Polyphony.Console
