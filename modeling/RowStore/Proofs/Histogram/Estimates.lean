/-
# How far estimates are off

An estimate is worked out here in exact fractions.  A number `v` of the range falls into one bucket,
and the values in all the others compare with `v` as their buckets compare with that one.  So their
part in an estimate is exact (`Counted.certain_eq`).  Of the values in the bucket itself an estimate
takes a part, as if they were spread over its width: it asks how many of the numbers of the bucket
satisfy the comparison (`places`).  This is one formula for all six comparisons
(`Counted.rawEstimate_eq`).

What the estimate takes of the bucket and what is true of it both lie between none and all of the
values in it.  Hence the result (`estimate_error`): an estimate is off by no more than the part that
the bucket has of all the values, and it is exact for a number that is not in the range.
-/
import Mathlib.Algebra.Order.Field.Basic
import Mathlib.Algebra.Order.Field.Rat
import Mathlib.Tactic.Ring
import RowStore.Proofs.Histogram.Counting

namespace RowStore

/-- What a comparison asks of two things that are ordered. -/
theorem Comparison.accepts_compare_iff {α : Type} [LinearOrder α] (c : Comparison) (a b : α) :
    c.accepts (compare a b) = true ↔
      match c with
      | .eq | .like => a = b
      | .ne => a ≠ b
      | .gt => b < a
      | .ge => b ≤ a
      | .lt => a < b
      | .le => a ≤ b := by
  rcases lt_trichotomy a b with hlt | rfl | hgt
  · rw [compare_lt_iff_lt.mpr hlt]
    cases c <;> simp [accepts, hlt, hlt.le, hlt.ne, hlt.not_gt]
  · rw [compare_eq_iff_eq.mpr rfl]
    cases c <;> simp [accepts]
  · rw [compare_gt_iff_gt.mpr hgt]
    cases c <;> simp [accepts, hgt, hgt.le, hgt.ne', hgt.not_gt]

theorem Scalar.clamp_of_mem {x : ℚ} (hzero : 0 ≤ x) (hone : x ≤ 1) : clamp x = x := by
  have hlow : less x zero = false := decide_eq_false hzero.not_gt
  have hhigh : less one x = false := decide_eq_false hone.not_gt
  rw [clamp, hlow, hhigh]
  rfl

namespace NumberHistogram

variable {h : NumberHistogram} {b : Nat} {v : Int} {values : List Int} {c : Comparison}

/-! ## 1. One formula -/

/-- How many values in other buckets satisfy the comparison with the numbers of this one. -/
def certain (h : NumberHistogram) : Comparison → Nat → Nat
  | .ne, b => h.before b + h.behind b
  | .gt, b | .ge, b => h.behind b
  | .lt, b | .le, b => h.before b
  | .eq, _ | .like, _ => 0

/-- How many numbers of the bucket of `v` satisfy the comparison with `v`, as an estimate takes it. -/
def places (h : NumberHistogram) : Comparison → Int → Int
  | .eq, _ => 1
  | .ne, _ => h.width - 1
  | .gt, v => h.right (h.bucketOf v) - v
  | .ge, v => h.right (h.bucketOf v) - v + 1
  | .lt, v => v - h.left (h.bucketOf v)
  | .le, v => v - h.left (h.bucketOf v) + 1
  | .like, _ => 0

/-- How many of the values of a bucket are on `n` numbers of it, if they are spread evenly. -/
def spread (h : NumberHistogram) (b : Nat) (n : Int) : ℚ := h.count b * n / h.width

theorem spread_add (m n : Int) : h.spread b (m + n) = h.spread b m + h.spread b n := by
  rw [spread, spread, spread, Int.cast_add]
  ring

theorem Regular.spread_width (hr : h.Regular) : h.spread b h.width = h.count b :=
  mul_div_cancel_right₀ _ (Int.cast_ne_zero.mpr hr.width_pos.ne')

theorem Regular.spread_nonneg (hr : h.Regular) {n : Int} (hn : 0 ≤ n) : 0 ≤ h.spread b n :=
  div_nonneg (mul_nonneg (Nat.cast_nonneg _) (Int.cast_nonneg hn))
    (Int.cast_nonneg hr.width_pos.le)

/-- More numbers of a bucket have no fewer of its values. -/
theorem Regular.spread_mono (hr : h.Regular) {m n : Int} (hle : m ≤ n) :
    h.spread b m ≤ h.spread b n := by
  have hrest := hr.spread_nonneg (b := b) (Int.sub_nonneg.mpr hle)
  rw [← add_sub_cancel m n, spread_add]
  exact le_add_of_nonneg_right hrest

theorem equal_eq (hv : h.Spans v) : (h.equal v : ℚ) = h.spread (h.bucketOf v) 1 / h.total := by
  obtain ⟨hfrom, hto⟩ := hv
  rw [equal, if_neg (by omega)]
  change (h.count (h.bucketOf v) / h.total / h.width : ℚ) = _
  rw [spread]
  ring

theorem greater_eq (hv : h.Spans v) : (h.greater v : ℚ) =
    (h.behind (h.bucketOf v) + h.spread (h.bucketOf v) (h.right (h.bucketOf v) - v)) / h.total := by
  obtain ⟨hfrom, hto⟩ := hv
  rw [greater, if_neg (by omega), if_neg (by omega)]
  change (h.count (h.bucketOf v) / h.total * (h.right (h.bucketOf v) - v : Int) / h.width +
    h.behind (h.bucketOf v) / h.total : ℚ) = _
  rw [spread]
  ring

theorem less_eq (hv : h.Spans v) : (h.less v : ℚ) =
    (h.before (h.bucketOf v) + h.spread (h.bucketOf v) (v - h.left (h.bucketOf v))) / h.total := by
  obtain ⟨hfrom, hto⟩ := hv
  rw [less, if_neg (by omega), if_neg (by omega)]
  change (h.count (h.bucketOf v) / h.total * (v - h.left (h.bucketOf v) : Int) / h.width +
    h.before (h.bucketOf v) / h.total : ℚ) = _
  rw [spread]
  ring

theorem rawEstimate_ne : (h.rawEstimate .ne v : ℚ) = 1 - h.equal v := rfl

theorem rawEstimate_gt : (h.rawEstimate .gt v : ℚ) = h.greater v := rfl

theorem rawEstimate_ge : (h.rawEstimate .ge v : ℚ) = h.greater v + h.equal v := rfl

theorem rawEstimate_lt : (h.rawEstimate .lt v : ℚ) = h.less v := rfl

theorem rawEstimate_le : (h.rawEstimate .le v : ℚ) = h.less v + h.equal v := rfl

/-- All the values are counted in the bucket, in front of it or behind it. -/
theorem Counted.one_eq (hc : h.Counted values) (hsome : h.total ≠ 0) (b : Nat) :
    (1 : ℚ) = (h.before b + h.count b + h.behind b) / h.total := by
  have hsplit : (h.before b + h.count b + h.behind b : ℚ) = h.total := by
    exact_mod_cast hc.split
  rw [hsplit, div_self (Nat.cast_ne_zero.mpr hsome)]

/-- **An estimate in one formula**, for a number of the range. -/
theorem Counted.rawEstimate_eq (hc : h.Counted values) (hsome : h.total ≠ 0) (hv : h.Spans v)
    (hlike : c ≠ .like) : (h.rawEstimate c v : ℚ) =
      (h.certain c (h.bucketOf v) + h.spread (h.bucketOf v) (h.places c v)) / h.total := by
  cases c with
  | like => exact absurd rfl hlike
  | eq =>
    rw [certain, places, Nat.cast_zero, zero_add]
    exact equal_eq hv
  | ne =>
    -- the values in all buckets, less those that are equal
    have hall := spread_add (h := h) (b := h.bucketOf v) (h.width - 1) 1
    rw [sub_add_cancel, hc.regular.spread_width] at hall
    rw [rawEstimate_ne, equal_eq hv, hc.one_eq hsome (h.bucketOf v), hall, certain, places,
      Nat.cast_add]
    ring
  | gt => exact greater_eq hv
  | ge =>
    rw [rawEstimate_ge, greater_eq hv, equal_eq hv, places, spread_add, certain]
    ring
  | lt => exact less_eq hv
  | le =>
    rw [rawEstimate_le, less_eq hv, equal_eq hv, places, spread_add, certain]
    ring

theorem Regular.places_mem (hr : h.Regular) (hv : h.Spans v) :
    0 ≤ h.places c v ∧ h.places c v ≤ h.width := by
  obtain ⟨hleft, hright⟩ := hr.inBucket_bucketOf hv
  have hlt := right_lt (h := h) (b := h.bucketOf v)
  have hpos := hr.width_pos
  cases c <;> simp only [places] <;> omega

/-- An estimate takes none of the values in the bucket at least, and all of them at most. -/
theorem Regular.spread_places_mem (hr : h.Regular) (hv : h.Spans v) :
    0 ≤ h.spread b (h.places c v) ∧ h.spread b (h.places c v) ≤ h.count b := by
  obtain ⟨hnone, hall⟩ := hr.places_mem (c := c) hv
  exact ⟨hr.spread_nonneg hnone, (hr.spread_mono hall).trans_eq hr.spread_width⟩

/-! ## 2. What is true of the values -/

/-- How many of the values satisfy the comparison with `v`, each taken as the number of the range that
is nearest to it. -/
def satisfying (h : NumberHistogram) (values : List Int) (c : Comparison) (v : Int) : Nat :=
  values.countP fun x => c.accepts (compare (h.nearest x) v)

/-- The part of the values that satisfy the comparison with `v`. -/
def share (h : NumberHistogram) (values : List Int) (c : Comparison) (v : Int) : ℚ :=
  h.satisfying values c v / values.length

namespace Counted

variable (hc : h.Counted values)
include hc

/-- What is certain, and what is in the bucket besides, is not more than all. -/
theorem certain_add_count_le : h.certain c b + h.count b ≤ h.total := by
  have hsplit := hc.split (b := b)
  cases c <;> simp only [certain] <;> omega

/-- **Values in other buckets** are counted exactly: they compare as their buckets do. -/
theorem certain_eq (hlike : c ≠ .like) : h.certain c b =
    values.countP fun x => h.bucketFor x ≠ b ∧ c.accepts (compare (h.bucketFor x) b) = true := by
  have hapart := countP_or_of_apart (p := fun x => h.bucketFor x < b)
    (q := fun x => b < h.bucketFor x) (l := values) fun x _ hlt => Nat.not_lt.mpr hlt.le
  cases c with
  | like => exact absurd rfl hlike
  | eq =>
    refine (List.countP_eq_zero.mpr fun x _ hx => ?_).symm
    obtain ⟨hne, heq⟩ := of_decide_eq_true hx
    exact hne ((Comparison.accepts_compare_iff _ _ _).mp heq)
  | ne =>
    rw [certain, hc.before, hc.behind, ← hapart]
    refine List.countP_congr fun x _ => ?_
    rw [decide_eq_true_eq, decide_eq_true_eq, Comparison.accepts_compare_iff]
    dsimp only
    omega
  | gt | ge =>
    rw [certain, hc.behind]
    refine List.countP_congr fun x _ => ?_
    rw [decide_eq_true_eq, decide_eq_true_eq, Comparison.accepts_compare_iff]
    dsimp only
    omega
  | lt | le =>
    rw [certain, hc.before]
    refine List.countP_congr fun x _ => ?_
    rw [decide_eq_true_eq, decide_eq_true_eq, Comparison.accepts_compare_iff]
    dsimp only
    omega

/-- So what is true of all values differs from what is certain by values in the bucket. -/
theorem satisfying_mem (hlike : c ≠ .like) (hv : h.Spans v) :
    h.certain c (h.bucketOf v) ≤ h.satisfying values c v ∧
      h.satisfying values c v ≤ h.certain c (h.bucketOf v) + h.count (h.bucketOf v) := by
  have hcompare : ∀ x, h.bucketFor x ≠ h.bucketOf v →
      compare (h.nearest x) v = compare (h.bucketFor x) (h.bucketOf v) :=
    fun x hne => hc.regular.compare_eq (hc.regular.spans_nearest x) hv hne
  rw [hc.certain_eq hlike, satisfying]
  constructor
  · refine List.countP_mono_left fun x _ hx => ?_
    obtain ⟨hne, haccepts⟩ := of_decide_eq_true hx
    rw [hcompare x hne]
    exact haccepts
  · rw [hc.count, ← countP_or_of_apart fun x _ hx => hx.1]
    refine List.countP_mono_left fun x _ hx => ?_
    rw [decide_eq_true_eq]
    by_cases hin : h.bucketFor x = h.bucketOf v
    · exact Or.inr hin
    · rw [hcompare x hin] at hx
      exact Or.inl ⟨hin, hx⟩

end Counted

/-! ## 3. Numbers that are not in the range -/

/-- If all the values compare with `v` alike, the comparison holds of all of them or of none. -/
theorem share_of_forall {o : Ordering} (hsome : values ≠ [])
    (hall : ∀ x ∈ values, compare (h.nearest x) v = o) :
    h.share values c v = if c.accepts o then 1 else 0 := by
  have hlength : (values.length : ℚ) ≠ 0 :=
    Nat.cast_ne_zero.mpr (List.length_pos_iff.mpr hsome).ne'
  rw [share, satisfying]
  split
  · rename_i haccepts
    rw [List.countP_eq_length.mpr fun x hx => by rw [hall x hx, haccepts]]
    exact div_self hlength
  · rename_i haccepts
    rw [List.countP_eq_zero.mpr fun x hx => by rwa [hall x hx], Nat.cast_zero, zero_div]

/-- A number in front of the range is less than all of it, and one behind it is greater. -/
theorem Regular.compare_of_outside (hr : h.Regular) (hv : ¬ h.Spans v) :
    compare h.least v ≠ .eq ∧ ∀ x, compare (h.nearest x) v = compare h.least v := by
  have hrange := hr.range
  rw [Spans, not_and_or, Int.not_le, Int.not_le] at hv
  rcases hv with hfront | hbehind
  · rw [compare_gt_iff_gt.mpr hfront]
    exact ⟨by decide, fun x => compare_gt_iff_gt.mpr (hfront.trans_le (hr.spans_nearest x).1)⟩
  · rw [compare_lt_iff_lt.mpr (hrange.trans_lt hbehind)]
    exact ⟨by decide, fun x => compare_lt_iff_lt.mpr ((hr.spans_nearest x).2.trans_lt hbehind)⟩

/-- Outside the range, what is estimated is all of the values or nothing. -/
theorem Regular.rawEstimate_of_outside (hr : h.Regular) (hv : ¬ h.Spans v) (hlike : c ≠ .like) :
    (h.rawEstimate c v : ℚ) = if c.accepts (compare h.least v) then 1 else 0 := by
  have hne := (hr.compare_of_outside hv).1
  have hrange := hr.range
  rw [Spans, not_and_or, Int.not_le, Int.not_le] at hv
  have hequal : (h.equal v : ℚ) = 0 := if_pos hv
  have hends : (h.greater v : ℚ) = (if compare h.least v = .gt then 1 else 0) ∧
      (h.less v : ℚ) = if compare h.least v = .lt then 1 else 0 := by
    rcases hv with hfront | hbehind
    · rw [compare_gt_iff_gt.mpr hfront]
      exact ⟨(if_neg (by omega)).trans (if_pos hfront), (if_neg (by omega)).trans (if_pos hfront)⟩
    · rw [compare_lt_iff_lt.mpr (hrange.trans_lt hbehind)]
      exact ⟨if_pos hbehind, if_pos hbehind⟩
  obtain ⟨hgreater, hless⟩ := hends
  generalize compare h.least v = o at hne hgreater hless ⊢
  cases o with
  | eq => exact absurd rfl hne
  | lt | gt =>
    cases c with
    | like => exact absurd rfl hlike
    | eq => exact hequal
    | ne => rw [rawEstimate_ne, hequal, sub_zero]; rfl
    | gt => exact hgreater
    | ge => rw [rawEstimate_ge, hequal, add_zero]; exact hgreater
    | lt => exact hless
    | le => rw [rawEstimate_le, hequal, add_zero]; exact hless

theorem Regular.rawEstimate_of_lt (hr : h.Regular) (hv : v < h.least) (hlike : c ≠ .like) :
    (h.rawEstimate c v : ℚ) = if c.accepts .gt then 1 else 0 := by
  rw [hr.rawEstimate_of_outside (fun hin => hv.not_ge hin.1) hlike, compare_gt_iff_gt.mpr hv]

theorem Regular.rawEstimate_of_gt (hr : h.Regular) (hv : h.greatest < v) (hlike : c ≠ .like) :
    (h.rawEstimate c v : ℚ) = if c.accepts .lt then 1 else 0 := by
  rw [hr.rawEstimate_of_outside (fun hin => hv.not_ge hin.2) hlike,
    compare_lt_iff_lt.mpr (hr.range.trans_lt hv)]

/-- **A number that is not in the range** is estimated exactly. -/
theorem Regular.rawEstimate_eq_share (hr : h.Regular) (hsome : values ≠ []) (hv : ¬ h.Spans v)
    (hlike : c ≠ .like) : (h.rawEstimate c v : ℚ) = h.share values c v := by
  rw [hr.rawEstimate_of_outside hv hlike,
    share_of_forall hsome fun x _ => (hr.compare_of_outside hv).2 x]

/-! ## 4. The result -/

namespace Counted

variable (hc : h.Counted values)
include hc

theorem total_ne_zero (hsome : values ≠ []) : h.total ≠ 0 := by
  rw [hc.total]
  exact (List.length_pos_iff.mpr hsome).ne'

/-- An estimate lies between what is certain and what is possible. -/
theorem rawEstimate_mem (hsome : h.total ≠ 0) (hv : h.Spans v) (hlike : c ≠ .like) :
    (h.certain c (h.bucketOf v) / h.total : ℚ) ≤ h.rawEstimate c v ∧
      (h.rawEstimate c v : ℚ) ≤
        (h.certain c (h.bucketOf v) + h.count (h.bucketOf v)) / h.total := by
  obtain ⟨hnone, hall⟩ := hc.regular.spread_places_mem (b := h.bucketOf v) (c := c) hv
  have htotal : (0 : ℚ) ≤ h.total := Nat.cast_nonneg _
  rw [hc.rawEstimate_eq hsome hv hlike]
  constructor
  · exact div_le_div_of_nonneg_right (le_add_of_nonneg_right hnone) htotal
  · exact div_le_div_of_nonneg_right (add_le_add_right hall _) htotal

theorem share_mem (hv : h.Spans v) (hlike : c ≠ .like) :
    (h.certain c (h.bucketOf v) / h.total : ℚ) ≤ h.share values c v ∧
      h.share values c v ≤ (h.certain c (h.bucketOf v) + h.count (h.bucketOf v)) / h.total := by
  obtain ⟨hlow, hhigh⟩ := hc.satisfying_mem hlike hv
  have htotal : (0 : ℚ) ≤ h.total := Nat.cast_nonneg _
  rw [share, ← hc.total]
  constructor
  · exact div_le_div_of_nonneg_right (Nat.cast_le.mpr hlow) htotal
  · exact div_le_div_of_nonneg_right (by exact_mod_cast hhigh) htotal

/-- **No estimate leaves the unit interval.** -/
theorem rawEstimate_unit (hsome : h.total ≠ 0) (hlike : c ≠ .like) (v : Int) :
    0 ≤ (h.rawEstimate c v : ℚ) ∧ (h.rawEstimate c v : ℚ) ≤ 1 := by
  by_cases hv : h.Spans v
  · obtain ⟨hlow, hhigh⟩ := hc.rawEstimate_mem hsome hv hlike
    have htotal : (0 : ℚ) < h.total := Nat.cast_pos.mpr (Nat.pos_of_ne_zero hsome)
    have hall := hc.certain_add_count_le (c := c) (b := h.bucketOf v)
    constructor
    · exact hlow.trans' (div_nonneg (Nat.cast_nonneg _) htotal.le)
    · exact hhigh.trans ((div_le_one htotal).mpr (by exact_mod_cast hall))
  · rw [hc.regular.rawEstimate_of_outside hv hlike]
    split
    · exact ⟨zero_le_one, le_rfl⟩
    · exact ⟨le_rfl, zero_le_one⟩

/-- So bringing an estimate into the unit interval leaves it as it is. -/
theorem estimate_eq (hsome : h.total ≠ 0) (hlike : c ≠ .like) (v : Int) :
    (h.estimate c v : ℚ) = h.rawEstimate c v := by
  obtain ⟨hzero, hone⟩ := hc.rawEstimate_unit hsome hlike v
  unfold estimate
  rw [if_neg hsome]
  exact Scalar.clamp_of_mem hzero hone

end Counted

/-- **How far estimates are off.**  Take a histogram of at least one value.  An estimate lies in the
unit interval by itself.  For a number of the range, it is off by no more than the part of the values
that are in the number's bucket.  For any other number it is exact. -/
theorem estimate_error {buckets : Nat} {least greatest : Int} {h₀ : NumberHistogram}
    (hmake : make buckets least greatest = .ok h₀) {values : List Int} (hsome : values ≠ [])
    {h : NumberHistogram} (hh : h = h₀.addAll values) {c : Comparison} (hlike : c ≠ .like)
    (v : Int) :
    (0 ≤ (h.rawEstimate c v : ℚ) ∧ (h.rawEstimate c v : ℚ) ≤ 1) ∧
      (h.estimate c v : ℚ) = h.rawEstimate c v ∧
      (h.Spans v → |(h.estimate c v : ℚ) - h.share values c v| ≤
        h.count (h.bucketOf v) / h.total) ∧
      (¬ h.Spans v → (h.estimate c v : ℚ) = h.share values c v) := by
  have hc : h.Counted values := hh ▸ counted_addAll hmake values
  have htotal := hc.total_ne_zero hsome
  refine ⟨hc.rawEstimate_unit htotal hlike v, hc.estimate_eq htotal hlike v, fun hv => ?_,
    fun hv => ?_⟩
  · obtain ⟨hlow, hhigh⟩ := hc.rawEstimate_mem htotal hv hlike
    obtain ⟨hlow', hhigh'⟩ := hc.share_mem hv hlike
    have hbound := abs_sub_le_of_le_of_le hlow hhigh hlow' hhigh'
    rw [← sub_div, add_sub_cancel_left] at hbound
    rw [hc.estimate_eq htotal hlike v]
    exact hbound
  · rw [hc.estimate_eq htotal hlike v]
    exact hc.regular.rawEstimate_eq_share hsome hv hlike

/-- Three buckets over the numbers from 0 to 9, the last one with two of them, and two values that lie
outside. -/
theorem estimate_error_cut :
    ∃ h₀ h, make 3 0 9 = .ok h₀ ∧ [-5, 1, 8, 9, 100] ≠ [] ∧ h = h₀.addAll [-5, 1, 8, 9, 100] ∧
      Comparison.gt ≠ .like ∧ h.Spans 8 ∧ h.counts = #[2, 0, 3] ∧
      (0 ≤ (h.rawEstimate .gt 8 : ℚ) ∧ (h.rawEstimate .gt 8 : ℚ) ≤ 1) ∧
      (h.estimate .gt 8 : ℚ) = h.rawEstimate .gt 8 ∧
      |(h.estimate .gt 8 : ℚ) - h.share [-5, 1, 8, 9, 100] .gt 8| ≤
        h.count (h.bucketOf 8) / h.total := by
  have hmake : make 3 0 9 = .ok ⟨0, 9, 4, #[0, 0, 0], 0⟩ := rfl
  obtain ⟨hunit, hsame, hwithin, -⟩ := estimate_error hmake (by decide : [-5, 1, 8, 9, 100] ≠ []) rfl
    (by decide : Comparison.gt ≠ .like) 8
  exact ⟨_, _, hmake, by decide, rfl, by decide, by decide, by decide, hunit, hsame,
    hwithin (by decide)⟩

end NumberHistogram
end RowStore
