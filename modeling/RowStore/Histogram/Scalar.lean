/-
# The numbers that estimates are made of

An estimate is the same formula whether it is worked out in doubles or in exact fractions.
`Scalar` names what the formula needs; the program uses doubles, statements about the formula
use rationals.
-/

namespace RowStore

class Scalar (α : Type) extends Add α, Sub α, Mul α, Div α where
  ofInt : Int → α
  /-- Strictly less. -/
  less : α → α → Bool

instance : Scalar Float where
  ofInt := Float.ofInt
  less a b := a < b

instance : Scalar Rat where
  ofInt n := n
  less a b := decide (a < b)

namespace Scalar

variable {α : Type} [Scalar α]

def zero : α := ofInt 0

def one : α := ofInt 1

/-- The number of the unit interval that is nearest. -/
def clamp (x : α) : α :=
  if less x zero then zero else if less one x then one else x

end Scalar
end RowStore
