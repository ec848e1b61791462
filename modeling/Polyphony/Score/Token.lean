import Polyphony.Text.Blank
import Polyphony.Text.Digit

/-!
# Tokens

A voice is cut into tokens. A token is a command, a run of decimal digits, and a dot, where each
part may be missing but not all of them. A command is one character that is neither a digit nor
blank, with a sign `+` or `-` directly after it if there is one. Blanks stand between tokens and
nowhere else. Every text can be cut; what a token means is another question.

* `Token`: the tokens.
* `Token.first`: the token at the head of a text that does not start with a blank.
* `Token.scan`: the tokens of a voice.
-/

namespace Polyphony

open Text

/-- **A token** of a voice. -/
structure Token where
  /-- No, one or two characters. -/
  command : List Char
  digits : List Char
  dotted : Bool
  /-- The number of characters before the token. -/
  position : Nat
  deriving DecidableEq

namespace Token

/-- The characters of the token. -/
def text (t : Token) : List Char := t.command ++ t.digits ++ if t.dotted then ['.'] else []

/-- The number that the digits spell, if there are any. -/
def value? (t : Token) : Option Nat := if t.digits.isEmpty then none else some (ofDigits t.digits)

/-- The command at the head of a text, and the rest. -/
def splitCommand (c : Char) (rest : List Char) : List Char × List Char :=
  if isDigit c then ([], c :: rest)
  else
    match rest with
    | sign :: rest' => if sign = '+' ∨ sign = '-' then ([c, sign], rest') else ([c], rest)
    | [] => ([c], [])

/-- A dot at the head of a text, and the rest. -/
def splitDot : List Char → Bool × List Char
  | '.' :: rest => (true, rest)
  | rest => (false, rest)

/-- **The token at the head of a text** `c :: rest`, and what follows it. -/
def first (position : Nat) (c : Char) (rest : List Char) : Token × List Char :=
  let (command, afterCommand) := splitCommand c rest
  let (dotted, after) := splitDot (afterCommand.dropWhile isDigit)
  (⟨command, afterCommand.takeWhile isDigit, dotted, position⟩, after)

private theorem length_dropWhile_le (p : Char → Bool) (cs : List Char) :
    (cs.dropWhile p).length ≤ cs.length :=
  (List.dropWhile_sublist p).length_le

private theorem length_splitDot_le (cs : List Char) : (splitDot cs).2.length ≤ cs.length := by
  unfold splitDot
  split <;> simp

/-- A token takes at least one character. -/
theorem length_first_le (position : Nat) (c : Char) (rest : List Char) :
    (first position c rest).2.length ≤ rest.length := by
  have dropped : ((splitCommand c rest).2.dropWhile isDigit).length ≤ rest.length := by
    unfold splitCommand
    by_cases hc : isDigit c
    · simpa [hc] using length_dropWhile_le isDigit rest
    · simp only [hc, Bool.false_eq_true, if_false]
      split
      · split
        · exact Nat.le_succ_of_le (length_dropWhile_le _ _)
        · exact length_dropWhile_le _ _
      · simp
  exact Nat.le_trans (length_splitDot_le _) dropped

/-- The tokens of a text that `position` characters stand before. -/
def scanFrom (position : Nat) : List Char → List Token
  | [] => []
  | c :: rest =>
    if isBlank c then scanFrom (position + 1) rest
    else
      let token := (first position c rest).1
      token :: scanFrom (position + token.text.length) (first position c rest).2
termination_by cs => cs.length
decreasing_by
  · simp
  · exact Nat.lt_succ_of_le (length_first_le position c rest)

/-- **The tokens of a voice.** -/
def scan (voice : List Char) : List Token := scanFrom 0 voice

/-- The greatest number of digits that a token may have. -/
def digitLimit : Nat := 4300

/-- Whether the digits are few enough to be read as a number. -/
def isReadable (t : Token) : Bool := t.digits.length ≤ digitLimit

end Token

end Polyphony
