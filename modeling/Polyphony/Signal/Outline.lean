import Polyphony.Signal.Describe

/-!
# Outlines

The outline of a signal lists its places line by line, each below the place that it is wired to
and one step further in. A generator that is met again is listed once more with a mark, but what
is wired to it is not repeated.

* `Signal.outline`: the lines; `Signal.outlineText`: the lines as text.
* `Signal.shared`: the generators that are met again when the inputs are followed from the last to
  the first.
-/

namespace Polyphony

variable {α : Type} [Scalar α]

/-- One line of an outline. -/
structure OutlineLine (α : Type) [Scalar α] where
  depth : Nat
  signal : Signal α
  /-- Whether the generator was listed before. -/
  again : Bool

namespace Signal

/-- The lines of a signal at a depth, given the identities listed so far. -/
def outlineFrom : Signal α → Nat → StateM (List Nat) (List (OutlineLine α))
  | node id (n := n) ugen inputs, depth => do
    let s := node id ugen inputs
    if id ∈ (← get) then return [⟨depth, s, true⟩]
    else
      modify (id :: ·)
      let below ← (List.finRange n).mapM fun i => (inputs i).outlineFrom (depth + 1)
      return ⟨depth, s, false⟩ :: below.flatten

/-- **The outline of a signal.** -/
def outline (s : Signal α) : List (OutlineLine α) := ((s.outlineFrom 0).run []).1

/-- A walk that has met some generators, and some of them again. -/
structure Walk (α : Type) [Scalar α] where
  met : List Nat
  /-- The generators met again, in the order in which that was found. -/
  again : List (Signal α)

/-- The walk through a signal, its inputs from the last to the first. -/
def walk : Signal α → Walk α → Walk α
  | node id (n := n) ugen inputs, w =>
    if id ∈ w.met then
      if w.again.any (·.id == id) then w
      else { w with again := w.again ++ [node id ugen inputs] }
    else Fin.foldr n (fun i w => (inputs i).walk w) { w with met := id :: w.met }

/-- **The generators that are met more than once**, each listed once. -/
def shared (s : Signal α) : List (Signal α) := (s.walk ⟨[], []⟩).again

end Signal

/-- A line of an outline as text: two blanks for each step in, and the mark. -/
def OutlineLine.text (reels : Reels Float) (l : OutlineLine Float) : String :=
  String.ofList (List.replicate (2 * l.depth) ' ') ++ l.signal.describe reels ++
    if l.again then " [shared]" else ""

/-- The outline as text, line by line. -/
def Signal.outlineText (reels : Reels Float) (s : Signal Float) : String :=
  "\n".intercalate (s.outline.map (·.text reels))

end Polyphony
