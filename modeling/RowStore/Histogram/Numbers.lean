/-
# Histograms of numbers

The range of a column is cut into buckets of equal width, and each bucket counts the values
that fall into it.  The last bucket that reaches into the range is cut off at its end; buckets
behind it stay empty.  From the counts follows an estimate of how many values satisfy a
comparison: the values of a bucket are taken to be spread evenly over its width.
-/
import RowStore.Error
import RowStore.Histogram.Scalar

namespace RowStore

structure NumberHistogram where
  /-- The ends of the range, both inside it. -/
  least : Int
  greatest : Int
  /-- How many numbers a bucket covers. -/
  width : Int
  counts : Array Nat
  /-- How many values have been added. -/
  total : Nat
deriving DecidableEq, Repr

namespace NumberHistogram

/-- A histogram of no values. -/
def make (buckets : Nat) (least greatest : Int) : Except Error NumberHistogram :=
  if buckets = 0 then .error (.config .noBuckets)
  else if greatest < least then .error (.config (.emptyDomain least greatest))
  else .ok {
    least, greatest
    width := (greatest - least + 1 + buckets - 1) / buckets
    counts := Array.replicate buckets 0
    total := 0 }

/-! ## 1. Buckets -/

/-- The bucket that a number of the range falls into. -/
def bucketOf (h : NumberHistogram) (v : Int) : Nat :=
  min ((v - h.least) / h.width).toNat (h.counts.size - 1)

/-- The least number of a bucket. -/
def left (h : NumberHistogram) (bucket : Nat) : Int := h.least + bucket * h.width

/-- The greatest number of a bucket. -/
def right (h : NumberHistogram) (bucket : Nat) : Int :=
  min (h.left bucket + h.width - 1) h.greatest

def count (h : NumberHistogram) (bucket : Nat) : Nat := h.counts.getD bucket 0

/-- The number of the range that is nearest. -/
def nearest (h : NumberHistogram) (v : Int) : Int :=
  if v < h.least then h.least else if h.greatest < v then h.greatest else v

/-- Counts a value.  One outside the range counts as the end that is nearest. -/
def add (h : NumberHistogram) (v : Int) : NumberHistogram :=
  { h with
    counts := h.counts.modify (h.bucketOf (h.nearest v)) (· + 1)
    total := h.total + 1 }

def addAll (h : NumberHistogram) (values : List Int) : NumberHistogram := values.foldl add h

/-! ## 2. Estimates -/

/-- The sum of some of the counts. -/
def sumOf (counts : List Nat) : Nat := counts.foldr (· + ·) 0

section

variable {α : Type} [Scalar α] (h : NumberHistogram)

open Scalar

/-- The part that `count` values are of all values. -/
def fraction (count : Nat) : α := ofInt count / ofInt h.total

/-- The part of the values that is estimated to equal `v`. -/
def equal (v : Int) : α :=
  if v < h.least ∨ h.greatest < v then zero
  else h.fraction (h.count (h.bucketOf v)) / ofInt h.width

/-- The part of the values that is estimated to exceed `v`. -/
def greater (v : Int) : α :=
  if h.greatest < v then zero
  else if v < h.least then one
  else
    let b := h.bucketOf v
    h.fraction (h.count b) * ofInt (h.right b - v) / ofInt h.width +
      h.fraction (sumOf (h.counts.toList.drop (b + 1)))

/-- The part of the values that is estimated to lie below `v`. -/
def less (v : Int) : α :=
  if h.greatest < v then one
  else if v < h.least then zero
  else
    let b := h.bucketOf v
    h.fraction (h.count b) * ofInt (v - h.left b) / ofInt h.width +
      h.fraction (sumOf (h.counts.toList.take b))

/-- What is assumed when nothing is known about the operand. -/
def average : α := one

/-- The estimate before it is brought into the unit interval. -/
def rawEstimate (c : Comparison) (v : Int) : α :=
  match c with
  | .eq => h.equal v
  | .ne => one - h.equal v
  | .gt => h.greater v
  | .ge => h.greater v + h.equal v
  | .lt => h.less v
  | .le => h.less v + h.equal v
  | .like => average

/-- The part of the values `x` for which `x` compared with `v` is estimated to hold.  Without
values every number differs from `v`, and none compares otherwise. -/
def estimate (c : Comparison) (v : Int) : α :=
  if h.total = 0 then
    match c with
    | .ne => one
    | .like => average
    | _ => zero
  else clamp (h.rawEstimate c v)

end

/-! ## 3. Wording -/

def render (h : NumberHistogram) : String :=
  let bucket (b : Nat) : String :=
    " [" ++ (h.left b).repr ++ "..=" ++ (h.right b).repr ++ "]=" ++ (h.count b).repr
  "IntHistogram[" ++ h.least.repr ++ "..=" ++ h.greatest.repr ++ ", width " ++ h.width.repr ++
    ", " ++ h.total.repr ++ " values]:" ++
    String.join ((List.range h.counts.size).map bucket)

end NumberHistogram
end RowStore
