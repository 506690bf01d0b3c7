/-
# Decimals of a fixed number of places

A double is shown with a given number of digits behind the point.  Its exact value is rounded
to the nearest such decimal; half way between two, to the one whose last digit is even.
-/
import RowStore.Decimal.Binary

namespace RowStore
namespace Decimal

/-- The quotient rounded to the nearest whole number, a half to the even neighbour. -/
def roundDiv (num den : Nat) : Nat :=
  let down := num / den
  let rest := num % den
  if 2 * rest < den then down
  else if den < 2 * rest then down + 1
  else if down % 2 = 0 then down else down + 1

/-- The text of a double, given by its bits, with `places + 1` digits behind the point. -/
def fixed (places : Nat) (bits : UInt64) : String :=
  match Binary.ofBits bits with
  | .nan => "NaN"
  | .infinite negative => if negative then "-inf" else "inf"
  | .finite negative mantissa exponent _ =>
    let (num, den) := Binary.ratio mantissa exponent
    let scale := Nat.pow 10 (places + 1)
    let units := roundDiv (num * scale) den
    let tail := (units % scale).repr
    (if negative then "-" else "") ++ (units / scale).repr ++ "." ++
      "".pushn '0' (places + 1 - tail.length) ++ tail

end Decimal
end RowStore
