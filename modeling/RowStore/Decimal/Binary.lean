/-
# The exact value of a double

A finite double is a whole number times a power of two.  Decimal text is worked out from that
number, in exact arithmetic on naturals.
-/

namespace RowStore

/-- What the sixty-four bits of a double stand for. -/
inductive Binary where
  | nan
  | infinite (negative : Bool)
  /-- `mantissa * 2 ^ exponent`.  `narrow` says that the next double below is only half as far
  away as the next one above, which is so at a power of two. -/
  | finite (negative : Bool) (mantissa : Nat) (exponent : Int) (narrow : Bool)
deriving DecidableEq, Repr

namespace Binary

/-- Reads sign, exponent and mantissa.  Exponent field zero holds the numbers below the least
power of two that has a full mantissa. -/
def ofBits (bits : UInt64) : Binary :=
  let n := bits.toNat
  let negative := n / Nat.pow 2 63 == 1
  let field : Nat := n / Nat.pow 2 52 % Nat.pow 2 11
  let fraction : Nat := n % Nat.pow 2 52
  if field = 2047 then
    if fraction = 0 then infinite negative else nan
  else if field = 0 then finite negative fraction (-1074) false
  else finite negative (Nat.pow 2 52 + fraction) (Int.ofNat field - 1075) (fraction == 0 && field != 1)

/-- `numerator / denominator` is `m * 2 ^ e`. -/
def ratio (m : Nat) (e : Int) : Nat × Nat :=
  match e with
  | .ofNat k => (m * Nat.pow 2 k, 1)
  | .negSucc k => (m, Nat.pow 2 (k + 1))

end Binary
end RowStore
