/-
# Shortest decimal of a double

A double is shown with the fewest digits that read back as it, and with those nearest to it
among them; of two equally near ones the larger is taken.  The text is positional however
large or small the number is: no exponent is ever written, and no point behind a whole number.

The digits are looked for on the grids of one, two, … significant places.  A number that reads
back is one of the interval of reals that round to the double, ends included if the mantissa is
even.  If a point of a grid lies in that interval, so does one of the double's two neighbours on
the grid, so no other points are looked at.
-/
import RowStore.Decimal.Binary

namespace RowStore
namespace Decimal

/-- `digits * 10 ^ exponent`. -/
structure Digits where
  digits : Nat
  exponent : Int
deriving DecidableEq, Repr

/-- The reals that round to one double: all are fractions over `den`. -/
structure Interval where
  low : Nat
  value : Nat
  high : Nat
  den : Nat
  /-- The two ends round to the double too. -/
  closed : Bool

/-- The interval of `mantissa * 2 ^ exponent`: half way to the next double on either side. -/
def Interval.of (mantissa : Nat) (exponent : Int) (narrow : Bool) : Interval :=
  let below := if narrow then 1 else 2
  let (value, den) := Binary.ratio (4 * mantissa) (exponent - 2)
  let unit := (Binary.ratio 1 (exponent - 2)).1
  ⟨value - below * unit, value, value + 2 * unit, den, mantissa % 2 = 0⟩

/-- `n * 10 ^ exponent` lies in the interval. -/
def Interval.holds (i : Interval) (n : Nat) (exponent : Int) : Bool :=
  let num := n * Nat.pow 10 exponent.toNat * i.den
  let scale := Nat.pow 10 (-exponent).toNat
  if i.closed then i.low * scale ≤ num && num ≤ i.high * scale
  else i.low * scale < num && num < i.high * scale

/-- The multiple of `10 ^ exponent` to show for the interval, if one of the double's two
neighbours on that grid lies in it. -/
def Interval.onGrid? (i : Interval) (exponent : Int) : Option Nat :=
  let num := i.value * Nat.pow 10 (-exponent).toNat
  let den := i.den * Nat.pow 10 exponent.toNat
  let below := num / den
  let above := below + 1
  if i.holds below exponent && !(i.holds above exponent && den ≤ 2 * (num % den)) then some below
  else if i.holds above exponent then some above
  else none

/-- The number of decimal digits of `n`. -/
def length (n : Nat) : Nat := n.repr.length

/-- The least exponent whose power of ten exceeds `num / den`, which is not zero. -/
def magnitude (num den : Nat) : Int :=
  if den ≤ num then length (num / den)
  else
    let places := length (den / num)
    if den ≤ num * Nat.pow 10 (places - 1) then 2 - places else 1 - places

/-- The first grid that holds a hit, from the powers of ten on, where the only one that can be
hit is the next above the double.  Seventeen significant places always suffice. -/
def Interval.shortest (i : Interval) : Digits :=
  let top := magnitude i.value i.den
  let hit := (List.range 18).findSome? fun (k : Nat) =>
    let exponent := top - Int.ofNat k
    (i.onGrid? exponent).map fun n => Digits.mk n exponent
  hit.getD ⟨0, 0⟩

/-- Positional text: zeros up to the point, or a point with zeros behind it where the digits
end before it. -/
def Digits.render (d : Digits) : String :=
  match d.exponent with
  | .ofNat k => (d.digits * Nat.pow 10 k).repr
  | .negSucc k =>
    let places := k + 1
    let text := d.digits.repr
    let padded := "".pushn '0' (places + 1 - text.length) ++ text
    let cut := padded.length - places
    (padded.take cut).toString ++ "." ++ (padded.drop cut).toString

/-- The shortest text of a double given by its bits. -/
def shortest (bits : UInt64) : String :=
  match Binary.ofBits bits with
  | .nan => "NaN"
  | .infinite negative => if negative then "-inf" else "inf"
  | .finite negative mantissa exponent narrow =>
    let size :=
      if mantissa = 0 then "0" else ((Interval.of mantissa exponent narrow).shortest).render
    if negative then "-" ++ size else size

end Decimal
end RowStore
