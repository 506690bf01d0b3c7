/-
# Buckets in words

The buckets are worked out in numbers without bounds.  A machine works them out in words of sixty-four
bits with a sign, and divides towards zero.  Here every step of it is checked: `word?` refuses a result
that no word can hold, `quotient?` a division by zero, and `bucketOf?` an index behind the last bucket.

For a range of thirty-two bits and fewer than `2 ^ 62` buckets nothing is refused, and the results are
those without bounds (`Regular.exact`).  The reason is `Regular.reach`: the buckets together reach less
than one number for each of them too far, so the end of the last one is still below `2 ^ 63`.
-/
import RowStore.Proofs.Histogram.Buckets

namespace RowStore

/-- The number, if sixty-four bits with a sign can hold it. -/
def word? (n : Int) : Option Int :=
  if -9223372036854775808 ≤ n ∧ n ≤ 9223372036854775807 then some n else none

/-- The quotient, cut towards zero, if there is one in sixty-four bits. -/
def quotient? (m n : Int) : Option Int := if n = 0 then none else word? (m.tdiv n)

theorem word?_eq_some {n : Int} (hle : -9223372036854775808 ≤ n) (hge : n ≤ 9223372036854775807) :
    word? n = some n :=
  if_pos ⟨hle, hge⟩

theorem quotient?_eq_some {m n : Int} (hm : 0 ≤ m) (hword : m ≤ 9223372036854775807) (hn : 0 < n) :
    quotient? m n = some (m / n) := by
  have hlow := Int.ediv_nonneg hm hn.le
  have hhigh := Int.ediv_le_self n hm
  rw [quotient?, if_neg hn.ne', Int.tdiv_eq_ediv_of_nonneg hm, word?_eq_some (by omega) (by omega)]

namespace NumberHistogram

/-! ## 1. What a machine works out -/

/-- The width of each of so many buckets. -/
def width? (buckets : Nat) (least greatest : Int) : Option Int := do
  let buckets ← word? buckets
  let distance ← word? (greatest - least)
  let size ← word? (distance + 1)
  let raised ← word? (size + buckets)
  let raised ← word? (raised - 1)
  quotient? raised buckets

/-- The bucket that a number falls into, if the index says so without a cut at the last one. -/
def bucketOf? (h : NumberHistogram) (v : Int) : Option Nat := do
  let distance ← word? (v - h.least)
  let index ← quotient? distance h.width
  if 0 ≤ index ∧ index < h.counts.size then some index.toNat else none

def left? (h : NumberHistogram) (b : Nat) : Option Int := do
  let index ← word? b
  let offset ← word? (index * h.width)
  word? (h.least + offset)

def right? (h : NumberHistogram) (b : Nat) : Option Int := do
  let left ← h.left? b
  let next ← word? (left + h.width)
  let last ← word? (next - 1)
  return min last h.greatest

/-- How far a number is behind the left end of its bucket, as an estimate takes it. -/
def below? (h : NumberHistogram) (v : Int) : Option Int := do
  let left ← h.left? (← h.bucketOf? v)
  word? (v - left)

/-- How far a number is in front of the right end of its bucket. -/
def above? (h : NumberHistogram) (v : Int) : Option Int := do
  let right ← h.right? (← h.bucketOf? v)
  word? (right - v)

/-! ## 2. Nothing is refused -/

variable {h : NumberHistogram} {b : Nat} {v : Int}

/-- The range is one of thirty-two bits, and the buckets are not too many. -/
structure Moderate (h : NumberHistogram) : Prop where
  least : -2147483648 ≤ h.least
  greatest : h.greatest ≤ 2147483647
  buckets : h.counts.size < 4611686018427387904

namespace Regular

/-- Where a bucket begins, and where it would end without a cut. -/
theorem offset_bounds (hr : h.Regular) (hb : b < h.counts.size) : 0 ≤ b * h.width ∧
    b * h.width + h.width ≤ h.greatest - h.least + h.counts.size := by
  have hpos := hr.width_pos
  have hnext : ((b + 1 : Nat) : Int) ≤ h.counts.size := Int.ofNat_le.mpr hb
  have hproduct := Int.mul_le_mul_of_nonneg_right hnext hpos.le
  rw [Nat.cast_succ, Int.add_mul, Int.one_mul] at hproduct
  exact ⟨Int.mul_nonneg (Int.natCast_nonneg b) hpos.le, hproduct.trans hr.reach.2⟩

variable (hr : h.Regular) (hm : h.Moderate)
include hr hm

-- each proof puts together what bounds the steps, and then the steps are taken one after another
theorem width?_eq : width? h.counts.size h.least h.greatest = some h.width := by
  obtain ⟨hleast, hgreatest, hfew⟩ := hm
  have hrange := hr.range
  have hsome := hr.buckets
  simp (disch := omega) only [width?, word?_eq_some, quotient?_eq_some, Option.bind_eq_bind,
    Option.bind_some]
  rw [hr.width]

theorem bucketOf?_eq (hv : h.Spans v) : h.bucketOf? v = some (h.bucketOf v) := by
  have hindex := Int.ediv_nonneg (Int.sub_nonneg.mpr hv.1) hr.width_pos.le
  have hlt := (Int.toNat_lt hindex).mp (hr.index_lt hv)
  have hpos := hr.width_pos
  obtain ⟨hleast, hgreatest, -⟩ := hm
  obtain ⟨hfrom, hto⟩ := id hv
  simp (disch := omega) only [bucketOf?, word?_eq_some, quotient?_eq_some, Option.bind_eq_bind,
    Option.bind_some]
  rw [if_pos ⟨hindex, hlt⟩, hr.bucketOf_eq hv]

theorem left?_eq (hb : b < h.counts.size) : h.left? b = some (h.left b) := by
  obtain ⟨hlow, hhigh⟩ := hr.offset_bounds hb
  obtain ⟨hleast, hgreatest, hfew⟩ := hm
  have hpos := hr.width_pos
  simp (disch := omega) only [left?, word?_eq_some, Option.bind_eq_bind, Option.bind_some]
  rw [left]

theorem right?_eq (hb : b < h.counts.size) : h.right? b = some (h.right b) := by
  obtain ⟨hlow, hhigh⟩ := hr.offset_bounds hb
  have hleft := hr.left?_eq hm hb
  obtain ⟨hleast, hgreatest, hfew⟩ := hm
  have hpos := hr.width_pos
  have hbegin : h.left b = h.least + b * h.width := rfl
  simp (disch := omega) only [right?, hleft, word?_eq_some, Option.bind_eq_bind, Option.bind_some]
  rfl

theorem below?_eq (hv : h.Spans v) : h.below? v = some (v - h.left (h.bucketOf v)) := by
  have hleft := (hr.inBucket_bucketOf hv).1
  have hbegin := hr.least_le_left (b := h.bucketOf v)
  have hto := hv.2
  rw [below?, hr.bucketOf?_eq hm hv, Option.bind_eq_bind, Option.bind_some,
    hr.left?_eq hm (hr.bucketOf_lt hv)]
  obtain ⟨hleast, hgreatest, -⟩ := hm
  exact word?_eq_some (by omega) (by omega)

theorem above?_eq (hv : h.Spans v) : h.above? v = some (h.right (h.bucketOf v) - v) := by
  have hright := (hr.inBucket_bucketOf hv).2
  have hend : h.right (h.bucketOf v) ≤ h.greatest := min_le_right _ _
  have hfrom := hv.1
  rw [above?, hr.bucketOf?_eq hm hv, Option.bind_eq_bind, Option.bind_some,
    hr.right?_eq hm (hr.bucketOf_lt hv)]
  obtain ⟨hleast, hgreatest, -⟩ := hm
  exact word?_eq_some (by omega) (by omega)

end Regular

/-- All that is worked out of the buckets is exact in words. -/
structure Exact (h : NumberHistogram) : Prop where
  width : width? h.counts.size h.least h.greatest = some h.width
  bucketOf : ∀ v, h.Spans v → h.bucketOf? v = some (h.bucketOf v)
  left : ∀ b < h.counts.size, h.left? b = some (h.left b)
  right : ∀ b < h.counts.size, h.right? b = some (h.right b)
  below : ∀ v, h.Spans v → h.below? v = some (v - h.left (h.bucketOf v))
  above : ∀ v, h.Spans v → h.above? v = some (h.right (h.bucketOf v) - v)

/-- **No word is too small** for a range of thirty-two bits. -/
theorem Regular.exact (hr : h.Regular) (hm : h.Moderate) : h.Exact where
  width := hr.width?_eq hm
  bucketOf _ hv := hr.bucketOf?_eq hm hv
  left _ hb := hr.left?_eq hm hb
  right _ hb := hr.right?_eq hm hb
  below _ hv := hr.below?_eq hm hv
  above _ hv := hr.above?_eq hm hv

end NumberHistogram
end RowStore
