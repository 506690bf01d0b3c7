/-
# The buckets of a histogram

The width of a bucket is the size of the range over the number of buckets, rounded up.  So the
buckets reach over the whole range, the last one that reaches into it may be cut off at its end, and
more may lie behind it and have nothing in them.

Everything here comes from one fact: a number of the range falls into a bucket in front of the `b`th
one if and only if it lies in front of the left end of the `b`th one (`Regular.bucketOf_lt_iff`).  It
holds for all `b`, also behind the range.  With it, a bucket has the numbers between its ends
(`Regular.inBucket_iff`), and every number of the range is in one bucket and no other
(`Regular.divided`).
-/
import Mathlib.Algebra.Order.Group.Int
import Mathlib.Tactic.Linarith
import RowStore.Histogram.Numbers

namespace RowStore
namespace NumberHistogram

/-! ## 1. Numbers of the range -/

/-- The number lies in the range. -/
def Spans (h : NumberHistogram) (v : Int) : Prop := h.least ≤ v ∧ v ≤ h.greatest

/-- The number lies between the two ends of the bucket. -/
def InBucket (h : NumberHistogram) (b : Nat) (v : Int) : Prop := h.left b ≤ v ∧ v ≤ h.right b

instance (h : NumberHistogram) (v : Int) : Decidable (h.Spans v) :=
  inferInstanceAs (Decidable (_ ∧ _))

instance (h : NumberHistogram) (b : Nat) (v : Int) : Decidable (h.InBucket b v) :=
  inferInstanceAs (Decidable (_ ∧ _))

/-- What holds of a histogram as long as it is used: the range has numbers, there are buckets, and
they have the width that `make` works out. -/
structure Regular (h : NumberHistogram) : Prop where
  range : h.least ≤ h.greatest
  buckets : 0 < h.counts.size
  width : h.width = (h.greatest - h.least + 1 + h.counts.size - 1) / h.counts.size

variable {h : NumberHistogram} {b c : Nat} {v w : Int}

theorem make_eq_ok_iff {buckets : Nat} {least greatest : Int} :
    make buckets least greatest = .ok h ↔ 0 < buckets ∧ least ≤ greatest ∧
      h = ⟨least, greatest, (greatest - least + 1 + buckets - 1) / buckets,
        Array.replicate buckets 0, 0⟩ := by
  unfold make
  split
  · rename_i hnone
    simp only [hnone, reduceCtorEq, Nat.lt_irrefl, false_and]
  · split
    · rename_i hempty
      simp only [reduceCtorEq, Int.not_le.mpr hempty, false_and, and_false]
    · rename_i hsome hrange
      rw [Except.ok.injEq, eq_comm]
      simp only [Nat.pos_of_ne_zero hsome, Int.not_lt.mp hrange, true_and]

/-- A range with numbers in it can be cut into any number of buckets but none. -/
theorem exists_make {buckets : Nat} {least greatest : Int} (hsome : 0 < buckets)
    (hrange : least ≤ greatest) : ∃ h, make buckets least greatest = .ok h ∧
      h.least = least ∧ h.greatest = greatest ∧ h.counts.size = buckets :=
  ⟨_, make_eq_ok_iff.mpr ⟨hsome, hrange, rfl⟩, rfl, rfl, Array.size_replicate⟩

theorem regular_make {buckets : Nat} {least greatest : Int}
    (hmake : make buckets least greatest = .ok h) : h.Regular := by
  obtain ⟨hsome, hrange, rfl⟩ := make_eq_ok_iff.mp hmake
  exact ⟨hrange, by simpa using hsome, by simp⟩

theorem left_succ : h.left (b + 1) = h.left b + h.width := by
  rw [left, left, Nat.cast_succ, Int.add_mul, Int.one_mul, Int.add_assoc]

/-- A bucket has no more numbers than its width says. -/
theorem right_lt : h.right b < h.left b + h.width :=
  (min_le_left _ _).trans_lt (by omega)

namespace Regular

variable (hr : h.Regular)
include hr

/-! ## 2. The width -/

/-- Rounded up, the width is what makes the buckets reach over the whole range, by less than a number
for each bucket too far. -/
theorem reach : h.greatest - h.least < h.counts.size * h.width ∧
    h.counts.size * h.width ≤ h.greatest - h.least + h.counts.size := by
  have hsize : (0 : Int) < h.counts.size := Int.natCast_pos.mpr hr.buckets
  have hbelow := Int.ediv_mul_le (h.greatest - h.least + 1 + h.counts.size - 1) hsize.ne'
  have habove := Int.lt_ediv_add_one_mul_self (h.greatest - h.least + 1 + h.counts.size - 1) hsize
  rw [← hr.width] at hbelow habove
  rw [Int.add_mul, Int.one_mul] at habove
  rw [Int.mul_comm]
  constructor
  · omega
  · omega

theorem width_pos : 0 < h.width := by
  have hsize : (0 : Int) < h.counts.size := Int.natCast_pos.mpr hr.buckets
  have hrange := hr.range
  have hreach := hr.reach.1
  exact pos_of_mul_pos_right (a := (h.counts.size : Int)) (by omega) hsize.le

/-- One bucket is never wider than the range. -/
theorem width_le : h.width ≤ h.greatest - h.least + 1 := by
  have hsize : (1 : Int) ≤ h.counts.size := Int.natCast_pos.mpr hr.buckets
  have hproduct := Int.mul_nonneg (Int.sub_nonneg.mpr hr.range) (Int.sub_nonneg.mpr hsize)
  rw [hr.width]
  refine Int.ediv_le_of_le_mul (by omega) ?_
  linarith

/-! ## 3. Where a number falls -/

/-- The index of a number of the range is worked out without a cut at the last bucket. -/
theorem index_lt (hv : h.Spans v) : ((v - h.least) / h.width).toNat < h.counts.size := by
  have hdistance : v - h.least < h.counts.size * h.width := by
    have hreach := hr.reach.1
    have hgreatest := hv.2
    omega
  have hquotient := (Int.ediv_lt_iff_lt_mul hr.width_pos).mpr hdistance
  exact (Int.toNat_lt' hr.buckets).mpr hquotient

theorem bucketOf_eq (hv : h.Spans v) : h.bucketOf v = ((v - h.least) / h.width).toNat := by
  have hlt := hr.index_lt hv
  exact Nat.min_eq_left (by omega)

theorem bucketOf_lt (hv : h.Spans v) : h.bucketOf v < h.counts.size := by
  rw [hr.bucketOf_eq hv]
  exact hr.index_lt hv

/-- **Where a number falls** is a matter of the left ends. -/
theorem bucketOf_lt_iff (hv : h.Spans v) : h.bucketOf v < b ↔ v < h.left b := by
  have hquotient := Int.ediv_nonneg (Int.sub_nonneg.mpr hv.1) hr.width_pos.le
  rw [hr.bucketOf_eq hv, Int.toNat_lt hquotient, Int.ediv_lt_iff_lt_mul hr.width_pos, left]
  omega

theorem le_bucketOf_iff (hv : h.Spans v) : b ≤ h.bucketOf v ↔ h.left b ≤ v := by
  rw [← Nat.not_lt, hr.bucketOf_lt_iff hv, Int.not_lt]

/-- A number falls no further to the right than one that is no less. -/
theorem bucketOf_mono (hv : h.Spans v) (hw : h.Spans w) (hle : v ≤ w) :
    h.bucketOf v ≤ h.bucketOf w :=
  (hr.le_bucketOf_iff hw).mpr (((hr.le_bucketOf_iff hv).mp (Nat.le_refl _)).trans hle)

/-- Where two numbers can be, the first of them no greater than the other. -/
theorem cases_of_le (hle : v ≤ w) : v < h.least ∨ h.greatest < w ∨
    h.Spans v ∧ h.Spans w ∧ (h.bucketOf v = h.bucketOf w ∨ h.bucketOf v < h.bucketOf w) := by
  rcases Int.lt_or_le v h.least with hfront | hfrom
  · exact Or.inl hfront
  · rcases Int.lt_or_le h.greatest w with hbehind | hto
    · exact Or.inr (Or.inl hbehind)
    · have hv : h.Spans v := ⟨hfrom, hle.trans hto⟩
      have hw : h.Spans w := ⟨hfrom.trans hle, hto⟩
      exact Or.inr (Or.inr ⟨hv, hw, (hr.bucketOf_mono hv hw hle).eq_or_lt⟩)

/-- Numbers of two buckets are ordered as the buckets are. -/
theorem compare_eq (hv : h.Spans v) (hw : h.Spans w) (hne : h.bucketOf v ≠ h.bucketOf w) :
    compare v w = compare (h.bucketOf v) (h.bucketOf w) := by
  rcases Nat.lt_or_gt_of_ne hne with hlt | hgt
  · have hless : v < w := Int.not_le.mp fun hle => Nat.not_le.mpr hlt (hr.bucketOf_mono hw hv hle)
    rw [compare_lt_iff_lt.mpr hlt, compare_lt_iff_lt.mpr hless]
  · have hmore : w < v := Int.not_le.mp fun hle => Nat.not_le.mpr hgt (hr.bucketOf_mono hv hw hle)
    rw [compare_gt_iff_gt.mpr hgt, compare_gt_iff_gt.mpr hmore]

/-! ## 4. The ends of a bucket -/

theorem least_le_left : h.least ≤ h.left b := by
  have hoffset := Int.mul_nonneg (Int.natCast_nonneg b) hr.width_pos.le
  rw [left]
  omega

/-- What lies between the ends of a bucket is a number of the range. -/
theorem spans_of_inBucket (hin : h.InBucket b v) : h.Spans v :=
  ⟨hr.least_le_left.trans hin.1, hin.2.trans (min_le_right _ _)⟩

/-- **The numbers of a bucket** are those that fall into it. -/
theorem inBucket_iff (hv : h.Spans v) : h.InBucket b v ↔ h.bucketOf v = b := by
  have hleft := hr.le_bucketOf_iff (b := b) hv
  have hnext := hr.bucketOf_lt_iff (b := b + 1) hv
  have hgreatest := hv.2
  rw [left_succ] at hnext
  rw [InBucket, right, le_min_iff]
  omega

theorem inBucket_bucketOf (hv : h.Spans v) : h.InBucket (h.bucketOf v) v :=
  (hr.inBucket_iff hv).mpr rfl

end Regular

/-! ## 5. The range, divided -/

theorem Regular.spans_nearest (hr : h.Regular) (v : Int) : h.Spans (h.nearest v) := by
  have hrange := hr.range
  rw [Spans, nearest]
  split
  · omega
  · split
    · omega
    · omega

/-- A number of the range is nearest to itself. -/
theorem nearest_eq (hv : h.Spans v) : h.nearest v = v := by
  rw [nearest, if_neg (Int.not_lt.mpr hv.1), if_neg (Int.not_lt.mpr hv.2)]

/-- The buckets divide the range among them.  A bucket that lies behind the range has no number
between its ends. -/
structure Divided (h : NumberHistogram) : Prop where
  /-- Whatever is counted, is counted as a number of the range. -/
  nearest : ∀ x, h.Spans (h.nearest x)
  /-- The index of a number of the range needs no cut at the last bucket. -/
  index : ∀ v, h.Spans v → ((v - h.least) / h.width).toNat < h.counts.size
  /-- All the numbers of the range are in buckets, and no others. -/
  covered : ∀ v, h.Spans v ↔ ∃ b < h.counts.size, h.InBucket b v
  /-- No number is in two buckets. -/
  apart : ∀ b c v, h.InBucket b v → h.InBucket c v → b = c
  /-- The bucket that a number of the range falls into is the one that it is in. -/
  found : ∀ v, h.Spans v → h.InBucket (h.bucketOf v) v

/-- **The buckets divide the range.** -/
theorem Regular.divided (hr : h.Regular) : h.Divided where
  nearest := hr.spans_nearest
  index _ hv := hr.index_lt hv
  covered v := by
    constructor
    · intro hv
      exact ⟨h.bucketOf v, hr.bucketOf_lt hv, hr.inBucket_bucketOf hv⟩
    · rintro ⟨b, -, hin⟩
      exact hr.spans_of_inBucket hin
  apart b c v hb hc := by
    have hv := hr.spans_of_inBucket hb
    exact ((hr.inBucket_iff hv).mp hb).symm.trans ((hr.inBucket_iff hv).mp hc)
  found _ hv := hr.inBucket_bucketOf hv

end NumberHistogram
end RowStore
