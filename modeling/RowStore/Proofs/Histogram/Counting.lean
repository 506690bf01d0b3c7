/-
# What a histogram counts

Values are counted one after another, each in the bucket of the number of the range that is nearest to
it (`bucketFor`).  What is kept of them is said once, by the counts in front of each bucket
(`Counted.before`); adding a value keeps it (`Counted.add`), and so it holds however many values have
been added (`counted_addAll`).

The counts in a bucket and behind it follow from those in front (`Counted.count`, `Counted.behind`).
The result is `counts_values`: in words of sixty-four bits as in numbers without bounds, the buckets
divide the range among them, and each counts the values that lie between its ends.
-/
import RowStore.Proofs.Histogram.Words

namespace RowStore

/-- Two conditions that exclude each other are counted apart. -/
theorem countP_or_of_apart {α : Type} {p q : α → Prop} [DecidablePred p] [DecidablePred q]
    {l : List α} (hapart : ∀ a ∈ l, p a → ¬ q a) :
    l.countP (fun a => p a ∨ q a) = l.countP (fun a => p a) + l.countP (fun a => q a) := by
  induction l with
  | nil => rfl
  | cons a l ih =>
    have hhead := hapart a List.mem_cons_self
    have htail := ih fun b hb => hapart b (List.mem_cons_of_mem a hb)
    simp only [List.countP_cons, decide_eq_true_eq, htail]
    by_cases hp : p a
    · simp only [hp, hhead hp, true_or, if_true, if_false]
      omega
    · simp only [hp, false_or, if_false]
      omega

namespace NumberHistogram

/-! ## 1. Sums of counts -/

/-- How many values are counted in front of the bucket. -/
def before (h : NumberHistogram) (b : Nat) : Nat := sumOf (h.counts.toList.take b)

/-- How many values are counted behind the bucket. -/
def behind (h : NumberHistogram) (b : Nat) : Nat := sumOf (h.counts.toList.drop (b + 1))

/-- The bucket that a value is counted in. -/
def bucketFor (h : NumberHistogram) (x : Int) : Nat := h.bucketOf (h.nearest x)

theorem sumOf_append (l r : List Nat) : sumOf (l ++ r) = sumOf l + sumOf r := List.sum_append

/-- A count that grows by one adds to the sums that reach behind it. -/
theorem sumOf_take_modify {l : List Nat} {k : Nat} (hk : k < l.length) (b : Nat) :
    sumOf ((l.modify k (· + 1)).take b) = sumOf (l.take b) + if k < b then 1 else 0 := by
  induction l generalizing k b with
  | nil => cases hk
  | cons n l ih =>
    cases b with
    | zero => rfl
    | succ b =>
      cases k with
      | zero =>
        change n + 1 + sumOf (l.take b) = n + sumOf (l.take b) + 1
        omega
      | succ k =>
        have htail := ih (Nat.lt_of_succ_lt_succ hk) b
        change n + sumOf ((l.modify k (· + 1)).take b) = n + sumOf (l.take b) + _
        rw [htail]
        simp only [Nat.add_lt_add_iff_right, Nat.add_assoc]

variable {h : NumberHistogram} {b : Nat} {v : Int} {values : List Int}

theorem before_succ : h.before (b + 1) = h.before b + h.count b := by
  rw [before, before, List.take_add_one, sumOf_append, count, Array.getD_eq_getD_getElem?,
    ← Array.getElem?_toList]
  cases h.counts.toList[b]? with
  | none => rfl
  | some n => rfl

theorem before_add_behind : h.before (b + 1) + h.behind b = sumOf h.counts.toList := by
  rw [before, behind, ← sumOf_append, List.take_append_drop]

theorem before_size : h.before h.counts.size = sumOf h.counts.toList := by
  rw [before, ← Array.length_toList, List.take_length]

/-- More buckets have no fewer values in front of them. -/
theorem before_mono {b' : Nat} (hle : b ≤ b') : h.before b ≤ h.before b' := by
  induction hle with
  | refl => exact Nat.le_refl _
  | step _ ih =>
    rw [before_succ]
    exact ih.trans (Nat.le_add_right _ _)

/-! ## 2. Adding values -/

@[simp] theorem size_add (h : NumberHistogram) (v : Int) :
    (h.add v).counts.size = h.counts.size := Array.size_modify

theorem bucketFor_add (h : NumberHistogram) (v : Int) : (h.add v).bucketFor = h.bucketFor := by
  funext x
  rw [bucketFor, bucketOf, size_add]
  rfl

theorem Regular.add (hr : h.Regular) (v : Int) : (h.add v).Regular where
  range := hr.range
  buckets := by
    rw [size_add]
    exact hr.buckets
  width := by
    rw [size_add]
    exact hr.width

theorem Regular.bucketFor_lt (hr : h.Regular) (x : Int) : h.bucketFor x < h.counts.size :=
  hr.bucketOf_lt (hr.spans_nearest x)

theorem Regular.before_add (hr : h.Regular) (v : Int) (b : Nat) :
    (h.add v).before b = h.before b + if h.bucketFor v < b then 1 else 0 := by
  have hlt : h.bucketFor v < h.counts.toList.length := hr.bucketFor_lt v
  rw [before, NumberHistogram.add, Array.toList_modify]
  exact sumOf_take_modify hlt b

/-- What has been counted so far. -/
structure Counted (h : NumberHistogram) (values : List Int) : Prop where
  regular : h.Regular
  total : h.total = values.length
  before : ∀ b, h.before b = values.countP fun x => h.bucketFor x < b

theorem counted_make {buckets : Nat} {least greatest : Int}
    (hmake : make buckets least greatest = .ok h) : h.Counted [] where
  regular := regular_make hmake
  total := by
    obtain ⟨-, -, rfl⟩ := make_eq_ok_iff.mp hmake
    rfl
  before b := by
    obtain ⟨-, -, rfl⟩ := make_eq_ok_iff.mp hmake
    rw [NumberHistogram.before, Array.toList_replicate, List.take_replicate]
    exact List.sum_replicate_nat.trans (Nat.mul_zero _)

/-- **Adding a value** counts it along with the others. -/
theorem Counted.add (hc : h.Counted values) (v : Int) : (h.add v).Counted (values ++ [v]) where
  regular := hc.regular.add v
  total := by
    rw [List.length_append, ← hc.total]
    rfl
  before b := by
    rw [hc.regular.before_add, bucketFor_add, List.countP_append, List.countP_singleton, hc.before]
    simp only [decide_eq_true_eq]

theorem Counted.addAll (hc : h.Counted values) (more : List Int) :
    (h.addAll more).Counted (values ++ more) := by
  induction more generalizing h values with
  | nil =>
    rw [List.append_nil]
    exact hc
  | cons v more ih =>
    rw [← List.singleton_append, ← List.append_assoc]
    exact ih (hc.add v)

theorem counted_addAll {buckets : Nat} {least greatest : Int} {h₀ : NumberHistogram}
    (hmake : make buckets least greatest = .ok h₀) (values : List Int) :
    (h₀.addAll values).Counted values :=
  (counted_make hmake).addAll values

/-- Adding values changes nothing but the counts and their total. -/
theorem shape_addAll (h : NumberHistogram) (values : List Int) :
    (h.addAll values).least = h.least ∧ (h.addAll values).greatest = h.greatest ∧
      (h.addAll values).width = h.width ∧ (h.addAll values).counts.size = h.counts.size := by
  induction values generalizing h with
  | nil => exact ⟨rfl, rfl, rfl, rfl⟩
  | cons v values ih =>
    obtain ⟨hleast, hgreatest, hwidth, hsize⟩ := ih (h.add v)
    exact ⟨hleast, hgreatest, hwidth, hsize.trans (size_add h v)⟩

/-! ## 3. Counts of buckets -/

namespace Counted

variable (hc : h.Counted values)
include hc

theorem count : h.count b = values.countP fun x => h.bucketFor x = b := by
  have hapart := countP_or_of_apart (p := fun x => h.bucketFor x < b)
    (q := fun x => h.bucketFor x = b) (l := values) fun x _ hlt => Nat.ne_of_lt hlt
  have hnext := before_succ (h := h) (b := b)
  rw [hc.before, hc.before] at hnext
  simp only [← Nat.le_iff_lt_or_eq, ← Nat.lt_add_one_iff] at hapart
  omega

theorem sum : sumOf h.counts.toList = h.total := by
  rw [← before_size, hc.before, hc.total, List.countP_eq_length]
  intro x _
  exact decide_eq_true (hc.regular.bucketFor_lt x)

theorem behind : h.behind b = values.countP fun x => b < h.bucketFor x := by
  have hall := before_add_behind (h := h) (b := b)
  have hsplit := List.length_eq_countP_add_countP (fun x => decide (h.bucketFor x < b + 1))
    (l := values)
  rw [hc.before, hc.sum, hc.total] at hall
  simp only [decide_eq_true_eq, Nat.not_lt, Nat.succ_le_iff] at hsplit
  omega

/-- All values are counted in the bucket, in front of it or behind it. -/
theorem split : h.before b + h.count b + h.behind b = h.total := by
  rw [← before_succ, before_add_behind, hc.sum]

end Counted

/-! ## 4. The result -/

/-- Each bucket counts what lies between its ends. -/
structure Tallied (h : NumberHistogram) (values : List Int) : Prop where
  /-- A count is the number of values whose nearest number of the range lies in the bucket. -/
  count : ∀ b < h.counts.size, h.count b = values.countP fun x => h.InBucket b (h.nearest x)
  /-- A bucket that begins behind the range counts nothing. -/
  surplus : ∀ b, h.greatest < h.left b → h.count b = 0
  sum : sumOf h.counts.toList = h.total
  total : h.total = values.length

theorem Counted.tallied (hc : h.Counted values) : h.Tallied values where
  count b _ := by
    rw [hc.count]
    refine List.countP_congr fun x _ => ?_
    simp only [decide_eq_true_eq]
    exact (hc.regular.inBucket_iff (hc.regular.spans_nearest x)).symm
  surplus b hb := by
    rw [hc.count, List.countP_eq_zero]
    intro x _ hx
    have hspans := hc.regular.spans_nearest x
    have hle := (hc.regular.le_bucketOf_iff hspans).mp (Nat.le_of_eq (of_decide_eq_true hx).symm)
    exact Int.not_lt.mpr (hle.trans hspans.2) hb
  sum := hc.sum
  total := hc.total

/-- **What a histogram counts.**  Take any range of thirty-two bits that has numbers in it, any number
of buckets but none or too many, and any values.  Then there is such a histogram, the words that it is
worked out in are never too small, its buckets divide the range among them, and each of them counts
the values that lie in it. -/
theorem counts_values {buckets : Nat} (hsome : 0 < buckets) (hfew : buckets < 2 ^ 62)
    {least greatest : Int32} (hrange : least.toInt ≤ greatest.toInt) (values : List Int32) :
    ∃ h, (make buckets least.toInt greatest.toInt).map (·.addAll (values.map (·.toInt))) = .ok h ∧
      h.least = least.toInt ∧ h.greatest = greatest.toInt ∧ h.counts.size = buckets ∧
      h.Exact ∧ h.Divided ∧ h.Tallied (values.map (·.toInt)) := by
  obtain ⟨h₀, hmake, hleast₀, hgreatest₀, hsize₀⟩ := exists_make hsome hrange
  obtain ⟨hleast, hgreatest, -, hsize⟩ := shape_addAll h₀ (values.map (·.toInt))
  rw [hleast₀] at hleast
  rw [hgreatest₀] at hgreatest
  rw [hsize₀] at hsize
  have hc := counted_addAll hmake (values.map (·.toInt))
  have hlow := least.le_toInt
  have hhigh := greatest.toInt_lt
  have hm : (h₀.addAll (values.map (·.toInt))).Moderate :=
    ⟨by omega, by omega, by omega⟩
  refine ⟨_, congrArg _ hmake, hleast, hgreatest, hsize, hc.regular.exact hm, hc.regular.divided,
    hc.tallied⟩

/-- Four buckets over the numbers from 0 to 4: the third has one of them, and the fourth none. -/
theorem counts_values_surplus : 0 < 4 ∧ 4 < 2 ^ 62 ∧ (0 : Int32).toInt ≤ (4 : Int32).toInt ∧
    ∃ h, (make 4 0 4).map (·.addAll [-7, 3, 100]) = .ok h ∧ h.counts = #[1, 1, 1, 0] ∧
      h.least = 0 ∧ h.greatest = 4 ∧ h.counts.size = 4 ∧ h.Exact ∧ h.Divided ∧
      h.Tallied [-7, 3, 100] := by
  have hsome : 0 < 4 := by decide
  have hfew : 4 < 2 ^ 62 := by decide
  have hrange : (0 : Int32).toInt ≤ (4 : Int32).toInt := by decide
  obtain ⟨h, hmade, hall⟩ := counts_values hsome hfew hrange [-7, 3, 100]
  have hcounts : h.counts = #[1, 1, 1, 0] := by
    cases hmade
    decide
  exact ⟨hsome, hfew, hrange, h, hmade, hcounts, hall⟩

end NumberHistogram
end RowStore
