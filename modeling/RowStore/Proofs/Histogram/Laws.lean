/-
# Laws of estimates

What an estimate of `v` is when the comparison or `v` changes.  Everything is in exact fractions.

* A value is at most `v` or greater than it, and less than `v` or at least it.  The two estimates
  come to the same in both cases, but not always to one (`estimate_add_opposite`).  The last bucket
  that reaches into the range may be cut off, and the values in it are then spread over numbers that
  it does not have.  What falls on those is `missing`; `half_missing` is the smallest histogram with
  it.
* As `v` grows, what is greater or at least `v` is never estimated to become more, and what is less
  or at most `v` never to become less (`estimate_monotone`), the last bucket and the numbers outside
  of the range included.
-/
import Mathlib
import RowStore.Proofs.Histogram.Estimates

namespace RowStore
namespace NumberHistogram

variable {h : NumberHistogram} {b : Nat} {v w : Int} {values : List Int} {c : Comparison}

/-! ## 1. Opposite comparisons -/

/-- The part of the values that falls on numbers behind the end of the bucket of `v`. -/
def missing (h : NumberHistogram) (v : Int) : ℚ :=
  if h.Spans v then
    h.spread (h.bucketOf v) (h.left (h.bucketOf v) + h.width - 1 - h.right (h.bucketOf v)) / h.total
  else 0

namespace Regular

variable (hr : h.Regular)
include hr

/-- No bucket in front of another one that reaches into the range is cut off. -/
theorem right_of_lt (hb : b < h.bucketOf h.greatest) : h.right b = h.left b + h.width - 1 := by
  have hnext := (hr.le_bucketOf_iff (b := b + 1) ⟨hr.range, Int.le_refl _⟩).mp hb
  rw [left_succ] at hnext
  exact min_eq_left (by omega)

theorem bucketOf_least : h.bucketOf h.least = 0 := by
  have hnext := hr.bucketOf_lt_iff (b := 1) ⟨Int.le_refl _, hr.range⟩
  have hpos := hr.width_pos
  rw [left] at hnext
  omega

theorem right_zero : h.right 0 = h.left 0 + h.width - 1 := by
  have hwidth := hr.width_le
  rw [right, left]
  exact min_eq_left (by omega)

/-- The last bucket that reaches into the range ends with it. -/
theorem right_greatest : h.right (h.bucketOf h.greatest) = h.greatest :=
  (min_le_right _ _).antisymm (hr.inBucket_bucketOf ⟨hr.range, Int.le_refl _⟩).2

end Regular

namespace Counted

variable (hc : h.Counted values) (hsome : h.total ≠ 0)
include hc hsome

/-- **What is less, equal and greater** is all but what is missing. -/
theorem less_add_equal_add_greater (v : Int) :
    (h.less v + h.equal v + h.greater v : ℚ) = 1 - h.missing v := by
  by_cases hv : h.Spans v
  · -- the places in front of `v`, `v` itself, those behind it and those that are not there
    have hall : h.spread (h.bucketOf v) (v - h.left (h.bucketOf v)) + h.spread (h.bucketOf v) 1 +
        h.spread (h.bucketOf v) (h.right (h.bucketOf v) - v) +
        h.spread (h.bucketOf v) (h.left (h.bucketOf v) + h.width - 1 - h.right (h.bucketOf v)) =
        h.count (h.bucketOf v) := by
      rw [← spread_add, ← spread_add, ← spread_add, ← hc.regular.spread_width]
      congr 1
      ring
    rw [less_eq hv, equal_eq hv, greater_eq hv, missing, if_pos hv,
      hc.one_eq hsome (h.bucketOf v), ← hall]
    ring
  · have hle := hc.regular.rawEstimate_of_outside (c := .le) hv (by decide)
    have hgt := hc.regular.rawEstimate_of_outside (c := .gt) hv (by decide)
    have hne := (hc.regular.compare_of_outside hv).1
    rw [rawEstimate_le] at hle
    rw [rawEstimate_gt] at hgt
    rw [hle, hgt, missing, if_neg hv, sub_zero]
    cases ho : compare h.least v with
    | eq => exact absurd ho hne
    | lt => exact add_zero 1
    | gt => exact zero_add 1

/-- Something is missing just if the bucket of `v` has values and is cut off. -/
theorem missing_pos_iff : 0 < h.missing v ↔ h.Spans v ∧ 0 < h.count (h.bucketOf v) ∧
    h.right (h.bucketOf v) < h.left (h.bucketOf v) + h.width - 1 := by
  have htotal : (0 : ℚ) < h.total := Nat.cast_pos.mpr (Nat.pos_of_ne_zero hsome)
  have hwidth : (0 : ℚ) < h.width := Int.cast_pos.mpr hc.regular.width_pos
  have hlt := right_lt (h := h) (b := h.bucketOf v)
  rw [missing]
  split
  · rename_i hv
    rw [spread, div_pos_iff_of_pos_right htotal, div_pos_iff_of_pos_right hwidth]
    constructor
    · intro hpos
      have hcount : h.count (h.bucketOf v) ≠ 0 := by
        intro hzero
        rw [hzero, Nat.cast_zero, zero_mul] at hpos
        exact lt_irrefl _ hpos
      have hcut := pos_of_mul_pos_right hpos (Nat.cast_nonneg _)
      have hcut' := Int.cast_pos.mp hcut
      exact ⟨hv, Nat.pos_of_ne_zero hcount, by omega⟩
    · rintro ⟨-, hcount, hcut⟩
      exact mul_pos (Nat.cast_pos.mpr hcount) (Int.cast_pos.mpr (by omega))
  · rename_i hv
    exact ⟨fun hpos => absurd hpos (lt_irrefl _), fun hall => absurd hall.1 hv⟩

omit hsome in
theorem missing_nonneg (v : Int) : 0 ≤ h.missing v := by
  rw [missing]
  split
  · have hlt := right_lt (h := h) (b := h.bucketOf v)
    exact div_nonneg (hc.regular.spread_nonneg (by omega)) (Nat.cast_nonneg _)
  · exact le_rfl

/-- The first bucket has all of its numbers. -/
theorem missing_least : h.missing h.least = 0 := by
  refine le_antisymm (not_lt.mp fun hpos => ?_) (hc.missing_nonneg _)
  obtain ⟨-, -, hcut⟩ := (hc.missing_pos_iff hsome).mp hpos
  rw [hc.regular.bucketOf_least] at hcut
  exact hcut.ne hc.regular.right_zero

omit hsome in
theorem less_least : (h.less h.least : ℚ) = 0 := by
  have hr := hc.regular
  rw [less_eq ⟨Int.le_refl _, hr.range⟩, hr.bucketOf_least, left, spread]
  simp [NumberHistogram.before, sumOf]

omit hsome in
theorem greater_greatest : (h.greater h.greatest : ℚ) = 0 := by
  have hr := hc.regular
  have hin : h.Spans h.greatest := ⟨hr.range, Int.le_refl _⟩
  have hbehind : h.behind (h.bucketOf h.greatest) = 0 := by
    rw [hc.behind, List.countP_eq_zero]
    intro x _ hx
    have hspans := hr.spans_nearest x
    exact Nat.not_le.mpr (of_decide_eq_true hx) (hr.bucketOf_mono hspans hin hspans.2)
  rw [greater_eq hin, hr.right_greatest, hbehind, spread]
  simp

end Counted

/-- **Opposite comparisons.**  Take a histogram of at least one value.  What is estimated to be at
most `v` and to be greater comes to all of the values but what is missing, and so does what is
estimated to be less than `v` and to be at least it.  Only in the last bucket that reaches into the
range something can be missing, and just if it is cut off and has values.  All the values are at
least the least number of the range; that they are at most the greatest one is estimated but for
what is missing. -/
theorem estimate_add_opposite {buckets : Nat} {least greatest : Int} {h₀ : NumberHistogram}
    (hmake : make buckets least greatest = .ok h₀) {values : List Int} (hsome : values ≠ [])
    {h : NumberHistogram} (hh : h = h₀.addAll values) (v : Int) :
    (h.estimate .le v + h.estimate .gt v : ℚ) = 1 - h.missing v ∧
      (h.estimate .lt v + h.estimate .ge v : ℚ) = 1 - h.missing v ∧ 0 ≤ h.missing v ∧
      (0 < h.missing v ↔ h.Spans v ∧ 0 < h.count (h.bucketOf v) ∧
        h.right (h.bucketOf v) < h.left (h.bucketOf v) + h.width - 1) ∧
      (0 < h.missing v → h.bucketOf v = h.bucketOf h.greatest) ∧
      (h.estimate .ge h.least : ℚ) = 1 ∧
      (h.estimate .le h.greatest : ℚ) = 1 - h.missing h.greatest := by
  have hc : h.Counted values := hh ▸ counted_addAll hmake values
  have htotal : h.total ≠ 0 := hc.total_ne_zero hsome
  have hr := hc.regular
  have hsum := hc.less_add_equal_add_greater htotal
  refine ⟨?_, ?_, hc.missing_nonneg v, hc.missing_pos_iff htotal, ?_, ?_, ?_⟩
  · rw [hc.estimate_eq htotal (by decide), hc.estimate_eq htotal (by decide), rawEstimate_le,
      rawEstimate_gt]
    exact hsum v
  · rw [hc.estimate_eq htotal (by decide), hc.estimate_eq htotal (by decide), rawEstimate_lt,
      rawEstimate_ge, ← hsum v]
    ring
  · intro hpos
    obtain ⟨hv, -, hcut⟩ := (hc.missing_pos_iff htotal).mp hpos
    have hle := hr.bucketOf_mono hv ⟨hr.range, Int.le_refl _⟩ hv.2
    exact hle.eq_or_lt.resolve_right fun hlt => hcut.ne (hr.right_of_lt hlt)
  · have hall := hsum h.least
    rw [hc.less_least, hc.missing_least htotal] at hall
    rw [hc.estimate_eq htotal (by decide), rawEstimate_ge]
    linarith
  · have hall := hsum h.greatest
    rw [hc.greater_greatest] at hall
    rw [hc.estimate_eq htotal (by decide), rawEstimate_le]
    linarith

/-- Two buckets over the numbers from 0 to 2: the second one has one number, although buckets are
two wide, and so half of what is in it is missing. -/
theorem estimate_add_opposite_cut :
    ∃ h₀ h, make 2 0 2 = .ok h₀ ∧ [(2 : Int)] ≠ [] ∧ h = h₀.addAll [2] ∧ h.missing 2 = 1 / 2 ∧
      (h.estimate .le 2 + h.estimate .gt 2 : ℚ) = 1 - h.missing 2 ∧
      (h.estimate .lt 2 + h.estimate .ge 2 : ℚ) = 1 - h.missing 2 ∧
      (h.estimate .ge h.least : ℚ) = 1 ∧
      (h.estimate .le h.greatest : ℚ) = 1 - h.missing h.greatest := by
  have hmake : make 2 0 2 = .ok ⟨0, 2, 2, #[0, 0], 0⟩ := rfl
  obtain ⟨hle, hlt, -, -, -, hleast, hgreatest⟩ :=
    estimate_add_opposite hmake (by decide : [(2 : Int)] ≠ []) rfl 2
  exact ⟨_, _, hmake, by decide, rfl, by decide +kernel, hle, hlt, hleast, hgreatest⟩

/-- **Half of the values are nowhere**: the only value is the greatest number of the range, and only
half of the values are estimated to be at most that. -/
theorem half_missing :
    ∃ h₀ h, make 2 0 2 = .ok h₀ ∧ h = h₀.addAll [2] ∧ h.greatest = 2 ∧
      (h.estimate .le 2 : ℚ) = 1 / 2 ∧ (h.estimate .le 2 + h.estimate .gt 2 : ℚ) ≠ 1 ∧
      (h.estimate .lt 2 + h.estimate .ge 2 : ℚ) ≠ 1 :=
  ⟨_, _, rfl, rfl, rfl, by decide +kernel, by decide +kernel, by decide +kernel⟩

/-! ## 2. Growing operands -/

namespace Counted

variable (hc : h.Counted values)
include hc

/-- An estimate is no larger if it takes fewer numbers of the same bucket, or if all the values in
the bucket are certain for the other one. -/
theorem rawEstimate_le_rawEstimate (hsome : h.total ≠ 0) (hlike : c ≠ .like) (hv : h.Spans v)
    (hw : h.Spans w) (hle : h.bucketOf v = h.bucketOf w ∧ h.places c v ≤ h.places c w ∨
      h.certain c (h.bucketOf v) + h.count (h.bucketOf v) ≤ h.certain c (h.bucketOf w)) :
    (h.rawEstimate c v : ℚ) ≤ h.rawEstimate c w := by
  have htotal : (0 : ℚ) ≤ h.total := Nat.cast_nonneg _
  rcases hle with ⟨hsame, hplaces⟩ | hcertain
  · rw [hc.rawEstimate_eq hsome hv hlike, hc.rawEstimate_eq hsome hw hlike, hsame]
    exact div_le_div_of_nonneg_right (add_le_add_right (hc.regular.spread_mono hplaces) _) htotal
  · calc (h.rawEstimate c v : ℚ)
      _ ≤ (h.certain c (h.bucketOf v) + h.count (h.bucketOf v)) / h.total :=
        (hc.rawEstimate_mem hsome hv hlike).2
      _ ≤ h.certain c (h.bucketOf w) / h.total :=
        div_le_div_of_nonneg_right (by exact_mod_cast hcertain) htotal
      _ ≤ h.rawEstimate c w := (hc.rawEstimate_mem hsome hw hlike).1

/-- What is less than a number, or at most it, does not become less as the number grows. -/
theorem rawEstimate_mono (hsome : h.total ≠ 0) (hup : c = .lt ∨ c = .le) (hle : v ≤ w) :
    (h.rawEstimate c v : ℚ) ≤ h.rawEstimate c w := by
  have hlike : c ≠ .like := by rcases hup with rfl | rfl <;> decide
  have hunit := hc.rawEstimate_unit hsome hlike
  rcases hc.regular.cases_of_le hle with hfront | hbehind | ⟨hv, hw, hsame | hlt⟩
  · have hzero : (h.rawEstimate c v : ℚ) = 0 := by
      rw [hc.regular.rawEstimate_of_lt hfront hlike]
      rcases hup with rfl | rfl <;> rfl
    exact hzero.trans_le (hunit w).1
  · have hone : (h.rawEstimate c w : ℚ) = 1 := by
      rw [hc.regular.rawEstimate_of_gt hbehind hlike]
      rcases hup with rfl | rfl <;> rfl
    exact (hunit v).2.trans_eq hone.symm
  · refine hc.rawEstimate_le_rawEstimate hsome hlike hv hw (Or.inl ⟨hsame, ?_⟩)
    rcases hup with rfl | rfl <;> simp only [places, hsame] <;> omega
  · -- the values in the bucket of `v` are in front of that of `w`
    have hbefore : h.before (h.bucketOf v + 1) ≤ h.before (h.bucketOf w) := before_mono hlt
    rw [before_succ] at hbefore
    refine hc.rawEstimate_le_rawEstimate hsome hlike hv hw (Or.inr ?_)
    rcases hup with rfl | rfl <;> exact hbefore

/-- What is greater than a number, or at least it, does not become more as the number grows. -/
theorem rawEstimate_anti (hsome : h.total ≠ 0) (hdown : c = .gt ∨ c = .ge) (hle : v ≤ w) :
    (h.rawEstimate c w : ℚ) ≤ h.rawEstimate c v := by
  have hlike : c ≠ .like := by rcases hdown with rfl | rfl <;> decide
  have hunit := hc.rawEstimate_unit hsome hlike
  rcases hc.regular.cases_of_le hle with hfront | hbehind | ⟨hv, hw, hsame | hlt⟩
  · have hone : (h.rawEstimate c v : ℚ) = 1 := by
      rw [hc.regular.rawEstimate_of_lt hfront hlike]
      rcases hdown with rfl | rfl <;> rfl
    exact (hunit w).2.trans_eq hone.symm
  · have hzero : (h.rawEstimate c w : ℚ) = 0 := by
      rw [hc.regular.rawEstimate_of_gt hbehind hlike]
      rcases hdown with rfl | rfl <;> rfl
    exact hzero.trans_le (hunit v).1
  · refine hc.rawEstimate_le_rawEstimate hsome hlike hw hv (Or.inl ⟨hsame.symm, ?_⟩)
    rcases hdown with rfl | rfl <;> simp only [places, hsame] <;> omega
  · -- the values in the bucket of `w` are behind that of `v`
    have hbefore : h.before (h.bucketOf v + 1) ≤ h.before (h.bucketOf w) := before_mono hlt
    have hsplit := hc.split (b := h.bucketOf v)
    have hsplit' := hc.split (b := h.bucketOf w)
    rw [before_succ] at hbefore
    refine hc.rawEstimate_le_rawEstimate hsome hlike hw hv (Or.inr ?_)
    rcases hdown with rfl | rfl <;> simp only [certain] <;> omega

end Counted

/-- Without values, an estimate says nothing of the number. -/
theorem estimate_of_empty (hnone : h.total = 0) (c : Comparison) (v w : Int) :
    (h.estimate c v : ℚ) = h.estimate c w := by
  unfold estimate
  rw [if_pos hnone, if_pos hnone]

/-- **Growing operands.**  Take any histogram.  As a number grows, what is estimated to be greater
than it or at least it never becomes more, and what is estimated to be less than it or at most it
never becomes less. -/
theorem estimate_monotone {buckets : Nat} {least greatest : Int} {h₀ : NumberHistogram}
    (hmake : make buckets least greatest = .ok h₀) (values : List Int) {h : NumberHistogram}
    (hh : h = h₀.addAll values) :
    Antitone (fun v => (h.estimate .gt v : ℚ)) ∧ Antitone (fun v => (h.estimate .ge v : ℚ)) ∧
      Monotone (fun v => (h.estimate .lt v : ℚ)) ∧ Monotone (fun v => (h.estimate .le v : ℚ)) := by
  have hc : h.Counted values := hh ▸ counted_addAll hmake values
  by_cases hsome : h.total = 0
  · exact ⟨fun v w _ => (estimate_of_empty hsome .gt w v).le,
      fun v w _ => (estimate_of_empty hsome .ge w v).le,
      fun v w _ => (estimate_of_empty hsome .lt v w).le,
      fun v w _ => (estimate_of_empty hsome .le v w).le⟩
  · have hup : ∀ {c : Comparison}, c = .lt ∨ c = .le →
        Monotone (fun v => (h.estimate c v : ℚ)) := by
      intro c hup v w hle
      have hlike : c ≠ .like := by rcases hup with rfl | rfl <;> decide
      simp only [hc.estimate_eq hsome hlike]
      exact hc.rawEstimate_mono hsome hup hle
    have hdown : ∀ {c : Comparison}, c = .gt ∨ c = .ge →
        Antitone (fun v => (h.estimate c v : ℚ)) := by
      intro c hdown v w hle
      have hlike : c ≠ .like := by rcases hdown with rfl | rfl <;> decide
      simp only [hc.estimate_eq hsome hlike]
      exact hc.rawEstimate_anti hsome hdown hle
    exact ⟨hdown (Or.inl rfl), hdown (Or.inr rfl), hup (Or.inl rfl), hup (Or.inr rfl)⟩

/-- Three buckets over the numbers from 0 to 9, four wide, the last one cut off.  Between 7 and 8
the second bucket ends: three of the four values are behind it, and of these a quarter is taken to
be greater than 8, and another quarter to be 8. -/
theorem estimate_monotone_cut :
    ∃ h₀ h, make 3 0 9 = .ok h₀ ∧ h = h₀.addAll [9, 9, 1, 100] ∧
      h.bucketOf 7 = 1 ∧ h.bucketOf 8 = 2 ∧
      (h.estimate .gt 7 : ℚ) = 3 / 4 ∧ (h.estimate .gt 8 : ℚ) = 3 / 16 ∧
      (h.estimate .ge 7 : ℚ) = 3 / 4 ∧ (h.estimate .ge 8 : ℚ) = 3 / 8 ∧
      (h.estimate .lt 7 : ℚ) = 1 / 4 ∧ (h.estimate .lt 8 : ℚ) = 1 / 4 ∧
      (h.estimate .le 7 : ℚ) = 1 / 4 ∧ (h.estimate .le 8 : ℚ) = 7 / 16 ∧
      Antitone (fun v => (h.estimate .gt v : ℚ)) ∧ Antitone (fun v => (h.estimate .ge v : ℚ)) ∧
      Monotone (fun v => (h.estimate .lt v : ℚ)) ∧ Monotone (fun v => (h.estimate .le v : ℚ)) := by
  have hmake : make 3 0 9 = .ok ⟨0, 9, 4, #[0, 0, 0], 0⟩ := rfl
  refine ⟨_, _, hmake, rfl, rfl, rfl, ?_, ?_, ?_, ?_, ?_, ?_, ?_, ?_,
    estimate_monotone hmake [9, 9, 1, 100] rfl⟩
  all_goals decide +kernel

end NumberHistogram
end RowStore
