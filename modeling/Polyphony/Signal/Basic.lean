import Polyphony.Signal.Ugen

/-!
# Signals

A signal is a unit generator with signals wired to its inputs. Each place in a wiring has an
identity of its own, a number, so that one generator used in two places can be told from two equal
ones: a graph is its unfolding into a tree in which equal identities mark equal subtrees.

* `Signal`: the signals.
* `Signal.sample`: a signal as a function of time.
* `Coherent`: equal identities mark equal subtrees.
-/

namespace Polyphony

variable {α : Type} [Scalar α]

/-- **Signals**: a unit generator, its identity, and what is wired to its inputs. -/
inductive Signal (α : Type) [Scalar α] where
  | node (id : Nat) {n : Nat} (ugen : Ugen α n) (inputs : Fin n → Signal α)

namespace Signal

def id : Signal α → Nat
  | node id _ _ => id

/-- The number of inputs. -/
def arity : Signal α → Nat
  | node _ (n := n) _ _ => n

def ugen : (s : Signal α) → Ugen α s.arity
  | node _ ugen _ => ugen

def inputs : (s : Signal α) → Fin s.arity → Signal α
  | node _ _ inputs => inputs

/-- The inputs in order. -/
def inputList (s : Signal α) : List (Signal α) := List.ofFn s.inputs

/-- **The value of a signal at a time.** -/
def sample (reels : Reels α) : Signal α → α → α
  | node _ ugen inputs => ugen.sample reels fun i => (inputs i).sample reels

/-- All places of the unfolding, each before the places below it. -/
def places : Signal α → List (Signal α)
  | node id (n := n) ugen inputs =>
    node id ugen inputs :: (List.finRange n).flatMap fun i => (inputs i).places

end Signal

/-- Equal identities mark equal subtrees: the tree is the unfolding of a graph. -/
def Coherent (s : Signal α) : Prop :=
  ∀ a ∈ s.places, ∀ b ∈ s.places, a.id = b.id → a = b

end Polyphony
