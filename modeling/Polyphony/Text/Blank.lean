/-!
# Blank characters

A character is blank if Unicode calls it a space separator, or if its direction class is that of a
paragraph, segment or blank separator. The notation is cut at blanks, and a voice of blanks alone
is empty.
-/

namespace Polyphony.Text

/-- **Blank characters**: the controls from tab to carriage return and from file to unit separator,
the space, and the separators beyond ASCII. The zero width space is not blank. -/
def isBlank (c : Char) : Bool :=
  let n := c.toNat
  (9 ≤ n && n ≤ 13) || (28 ≤ n && n ≤ 32) || n == 0x85 || n == 0xA0 || n == 0x1680 ||
    (0x2000 ≤ n && n ≤ 0x200A) || n == 0x2028 || n == 0x2029 || n == 0x202F || n == 0x205F ||
    n == 0x3000

end Polyphony.Text
