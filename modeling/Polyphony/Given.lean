/-!
# Given values

A caller gives a value, or leaves it out, or gives an empty list in its place. What is not a value is
found out only when the value is needed.

* `Given`: what a caller gives.
* `Need`: what a value is needed for.
-/

namespace Polyphony

/-- **What a caller gives** where a value may stand. -/
inductive Given (β : Type) where
  | value (b : β)
  | nothing
  | emptyList

/-- What a value is needed for. -/
inductive Need where
  /-- It stands on the left of a comparison with something of a type. -/
  | leftOf (comparison other : String)
  /-- It stands on the right of a comparison with something of a type. -/
  | rightOf (other comparison : String)
  | member (name : String)
  | double
  | path
  deriving DecidableEq

/-- What stands where a value is needed. -/
inductive Gap where
  | nothing
  | emptyList
  deriving DecidableEq

namespace Given

variable {β : Type}

instance : Coe β (Given β) := ⟨value⟩

/-- The value, if there is one. -/
def value? : Given β → Option β
  | value b => some b
  | nothing | emptyList => none

/-- A truth value, false unless given. -/
def holds : Given Bool → Bool
  | value b => b
  | nothing | emptyList => false

end Given

end Polyphony
