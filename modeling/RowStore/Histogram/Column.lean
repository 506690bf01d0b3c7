/-
# The histogram of a column

A column of numbers has a histogram of numbers, a column of texts one of texts.
-/
import RowStore.Histogram.Texts

namespace RowStore

inductive Histogram where
  | numbers (h : NumberHistogram)
  | texts (h : TextHistogram)
deriving DecidableEq, Repr

namespace Histogram

/-- Counts a value of the column.  A value of the other kind is not in the column and counts
nothing. -/
def add : Histogram → Value → Histogram
  | numbers h, .int n => numbers (h.add n.toInt)
  | texts h, .text s => texts (h.add s)
  | h, _ => h

/-- The part of the values for which the comparison is estimated to hold. -/
def estimate {α : Type} [Scalar α] (h : Histogram) (c : Comparison) (v : Value) : Except Error α :=
  match h, v with
  | numbers h, .int n => .ok (h.estimate c n.toInt)
  | texts h, .text s => .ok (h.estimate c s)
  | _, v => .error (.schema (.notOfHistogram v))

def total : Histogram → Nat
  | numbers h => h.total
  | texts h => h.keys.total

end Histogram
end RowStore
