import Polyphony.Signal.Basic

/-!
# Clones

A clone is a copy of a whole graph: every generator gets a new identity and every reel a new
number, and what is one generator in the graph is one generator in the clone.

* `Copying`: the state of a copy in progress.
* `Signal.copy`: copies what has not been copied yet.
* `Signal.clone`: a clone, with the reels and the next free identity after it.
-/

namespace Polyphony

variable {α : Type} [Scalar α]

/-- A copy in progress: the reels so far, the next free identity, and the copies by the identity of
what they are copies of. -/
structure Copying (α : Type) [Scalar α] where
  reels : Reels α
  next : Nat
  copies : List (Nat × Signal α)

/-- The generator for the copy. A reel is copied with its samples of this moment. -/
def Ugen.copy : {n : Nat} → Ugen α n → StateM (Copying α) (Ugen α n)
  | _, .playback reel => do
    let c ← get
    match c.reels[reel]? with
    | some r =>
      set { c with reels := c.reels.push r }
      return .playback c.reels.size
    | none => return .playback reel
  | _, u => return u

/-- The copy of a signal, made once for every identity. -/
def Signal.copy : Signal α → StateM (Copying α) (Signal α)
  | node id ugen inputs => do
    match (← get).copies.lookup id with
    | some known => return known
    | none =>
      let wired ← Vector.ofFnM fun i => (inputs i).copy
      let ugen ← ugen.copy
      modifyGet fun c =>
        let made := .node c.next ugen wired.get
        (made, { c with next := c.next + 1, copies := (id, made) :: c.copies })

/-- **A clone of a signal.** -/
def Signal.clone (s : Signal α) (reels : Reels α) (next : Nat) : Signal α × Reels α × Nat :=
  let (made, c) := s.copy.run ⟨reels, next, []⟩
  (made, c.reels, c.next)

end Polyphony
