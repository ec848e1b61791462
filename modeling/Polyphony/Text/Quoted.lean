import Polyphony.Text.Printable

/-!
# Quoted text

Messages quote a text so that it fits on one line and can be told from its surroundings. Single
quotes stand around it, or double quotes if it holds a single quote and no double one. The
backslash and the quote in use are escaped, and so is every character that does not print: by a
letter where it has one, else by its code point in two, four or eight hexadecimal digits.

* `quote`: the quoted text.
* `toAscii`: a quoted text with only ASCII characters.
-/

namespace Polyphony.Text

/-- The number in hexadecimal digits, at least `width` of them. -/
def hex (width n : Nat) : List Char :=
  let digits := Nat.toDigits 16 n
  List.replicate (width - digits.length) '0' ++ digits

/-- A character as an escape with its code point. -/
def escapeCode (c : Char) : List Char :=
  if c.toNat < 0x100 then '\\' :: 'x' :: hex 2 c.toNat
  else if c.toNat < 0x10000 then '\\' :: 'u' :: hex 4 c.toNat
  else '\\' :: 'U' :: hex 8 c.toNat

/-- One character inside quotes of the kind `mark`. -/
def escape (mark c : Char) : List Char :=
  if c = '\\' then ['\\', '\\']
  else if c = mark then ['\\', mark]
  else if c = '\n' then ['\\', 'n']
  else if c = '\t' then ['\\', 't']
  else if c = '\r' then ['\\', 'r']
  else if isPrintable c then [c]
  else escapeCode c

/-- The kind of quote that needs the fewest escapes. -/
def quoteMark (cs : List Char) : Char :=
  if '\'' ∈ cs ∧ '"' ∉ cs then '"' else '\''

/-- **The quoted text.** -/
def quoteChars (cs : List Char) : List Char :=
  let mark := quoteMark cs
  mark :: cs.flatMap (escape mark) ++ [mark]

def quote (s : String) : String := String.ofList (quoteChars s.toList)

/-- Characters beyond ASCII as escapes. -/
def toAscii (cs : List Char) : List Char :=
  cs.flatMap fun c => if c.toNat < 128 then [c] else escapeCode c

/-- A list of quoted texts in square brackets. -/
def quoteList (items : List String) : String :=
  "[" ++ ", ".intercalate (items.map quote) ++ "]"

end Polyphony.Text
