import Polyphony.Binary64.Basic

/-!
# Scalars

Times, frequencies and samples are numbers of one scalar type. Signals, scores and filters are
written once for every scalar type, with the operations in the order in which they are carried
out, so that a program that runs on doubles and a statement in exact arithmetic speak of the same
definitions.

* `Scalar`: the operations that a sample needs.
* `NumberFault`: why a conversion between integers and scalars can fail.
* `Scalar Float`: the doubles.
-/

namespace Polyphony

/-- Why a number cannot be converted. -/
inductive NumberFault where
  /-- An integer beyond the range of the scalars. -/
  | integerTooLarge
  /-- A power of two beyond the range of the scalars. -/
  | powerTooLarge
  /-- Infinity has no integer part. -/
  | infiniteInteger
  /-- The undefined number has no integer part. -/
  | undefinedInteger
  deriving DecidableEq

/-- **Scalars**: arithmetic, comparisons with a truth value, the floor, and the circular functions.
Conversions from and to integers may fail. -/
class Scalar (α : Type) extends Add α, Sub α, Mul α, Div α, Neg α, OfScientific α where
  lt : α → α → Bool
  le : α → α → Bool
  eq : α → α → Bool
  abs : α → α
  floor : α → α
  sin : α → α
  cos : α → α
  pi : α
  /-- The scalar of a count. -/
  ofNat : Nat → α
  ofInt? : Int → Except NumberFault α
  /-- The power of two with the given exponent. -/
  twoToThe? : Int → Except NumberFault α
  /-- The integer part, toward zero. -/
  toInt? : α → Except NumberFault Int

namespace Scalar

variable {α : Type} [Scalar α]

/-- The larger of two scalars; the first where neither is larger. -/
def max (a b : α) : α := if lt a b then b else a

/-- The scalar, moved into `[-1, 1]`. -/
def clip (x : α) : α := if lt x (-1.0) then -1.0 else if lt 1.0 x then 1.0 else x

/-- The natural number below a scalar, where there is one, and zero elsewhere. -/
def toNat (x : α) : Nat :=
  match toInt? (floor x) with
  | .ok n => n.toNat
  | .error _ => 0

end Scalar

/-- Conversion of an integer to the nearest double. -/
def Binary64.ofInt? (n : Int) : Except NumberFault Float :=
  if n.natAbs < overflowThreshold then .ok (Float.ofInt n) else .error .integerTooLarge

/-- Powers of two. The exponent itself has to be in the range of the doubles. -/
def Binary64.twoToThe? (n : Int) : Except NumberFault Float :=
  if overflowThreshold ≤ n.natAbs then .error .integerTooLarge
  else if 1024 ≤ n then .error .powerTooLarge
  else .ok (twoToThe n)

/-- The integer part of a double. -/
def Binary64.toInt? (x : Float) : Except NumberFault Int :=
  if x.isNaN then .error .undefinedInteger
  else if x.isInf then .error .infiniteInteger
  else .ok (integerPart x)

instance : Scalar Float where
  lt a b := a < b
  le a b := a ≤ b
  eq a b := a == b
  abs := Float.abs
  floor := Binary64.floor
  sin := Float.sin
  cos := Float.cos
  pi := 3.141592653589793
  ofNat := Float.ofNat
  ofInt? := Binary64.ofInt?
  twoToThe? := Binary64.twoToThe?
  toInt? := Binary64.toInt?

end Polyphony
