import Polyphony.Binary64.Rounded
import Polyphony.Console.Format
import Polyphony.Text.Quoted

/-!
# Filling in a format

The fields of a format are filled in with the values of their keys. A value that its conversion does
not fit, and a key that has no value, spoil the whole line.

* `Console.Value`: the values.
* `Console.Format.fill?`: a format, filled in.
-/

namespace Polyphony.Console

/-- What the key of a field stands for. -/
inductive Value where
  | text (text : String)
  | whole (n : Int)
  /-- Neither a text nor a number, but it can be shown. -/
  | other (shown : String)

/-- A value as it is filled in, before it is padded. -/
structure Filling where
  /-- The sign and the base of a number. -/
  front : List Char
  body : List Char
  isNumber : Bool

/-- **The filling in a field of its width.** Zeros stand between the front and the body. -/
def Field.pad (f : Field) (x : Filling) : List Char :=
  let missing := f.width - (x.front.length + x.body.length)
  if f.flags.left then x.front ++ x.body ++ List.replicate missing ' '
  else if f.flags.zeros && x.isNumber then x.front ++ List.replicate missing '0' ++ x.body
  else List.replicate missing ' ' ++ x.front ++ x.body

/-- A text, cut to the precision. -/
def Field.ofText (f : Field) (text : List Char) : Filling :=
  ⟨[], match f.precision with
    | some n => text.take n
    | none => text, false⟩

/-- The sign of a number. -/
def Flags.signOf (flags : Flags) (n : Int) : List Char :=
  if n < 0 then ['-'] else if flags.sign then ['+'] else if flags.blank then [' '] else []

private def capitalised (capitals : Bool) (text : List Char) : List Char :=
  if capitals then text.map Char.toUpper else text

/-- An integer, with at least as many digits as the precision says. -/
def Field.ofInteger (f : Field) (base : Nat) (capitals : Bool) (n : Int) : Filling :=
  let mark := if f.flags.full && base = 16 then ['0', 'x']
    else if f.flags.full && base = 8 then ['0', 'o'] else []
  let digits := Nat.toDigits base n.natAbs
  let body := List.replicate (f.precision.getD 0 - digits.length) '0' ++ digits
  ⟨f.flags.signOf n ++ capitalised capitals mark, capitalised capitals body, true⟩

/-- An integer as the double next to it, with six digits unless the precision says otherwise. -/
def Field.ofReal? (f : Field) (style : RealStyle) (capitals : Bool) (n : Int) : Option Filling := do
  let x ← (Binary64.ofInt? n).toOption
  let (num, den) := (Binary64.magnitude x).toFraction
  let count := f.precision.getD 6
  let text :=
    match style with
    | .fixed => Binary64.fixedText f.flags.full count num den
    | .exponent => Binary64.exponentText f.flags.full count num den
    | .general => Binary64.generalText f.flags.full count num den
  return ⟨f.flags.signOf n, capitalised capitals text.toList, true⟩

/-- The character of a code point. -/
def character? (n : Int) : Option Char :=
  if 0 ≤ n ∧ n.toNat.isValidChar then some (.ofNat n.toNat) else none

/-- A value, quoted. -/
def Value.quoted : Value → List Char
  | text s => Text.quoteChars s.toList
  | whole n => (toString n).toList
  | other shown => shown.toList

/-- A value as it shows without quotes. -/
def Value.plain : Value → List Char
  | text s => s.toList
  | v => v.quoted

/-- The filling of a field with a value, if the conversion fits it. -/
def Field.filling? (f : Field) (v : Value) : Option Filling :=
  match f.conversion, v with
  | .plain, v => some (f.ofText v.plain)
  | .quoted, v => some (f.ofText v.quoted)
  | .quotedAscii, v => some (f.ofText (Text.toAscii v.quoted))
  | .integer base capitals, .whole n => some (f.ofInteger base capitals n)
  | .real style capitals, .whole n => f.ofReal? style capitals n
  | .character, .whole n => (character? n).map fun c => ⟨[], [c], false⟩
  | .character, .text s => if s.length = 1 then some ⟨[], s.toList, false⟩ else none
  | _, _ => none

/-- A piece, filled in. -/
def Piece.fill? (value? : List Char → Option Value) : Piece → Option (List Char)
  | literal c => some [c]
  | field f => do return f.pad (← f.filling? (← value? f.key))
  | broken => none

/-- **A format, filled in** with the values of its keys. -/
def Format.fill? (value? : List Char → Option Value) (format : Format) : Option String := do
  return String.ofList (← format.mapM (Piece.fill? value?)).flatten

end Polyphony.Console
