/-
# The order behind joins

Values of one kind are ordered by `Value.compare?`, values of two kinds not at all.  `Value.order`
is a total order that says the same on each kind.  The join fields of the rows on both sides of a
join are of one kind (`HasKey`), so there the comparison of fields is that order, and the conditions
of joins accept or reject it.

* `sortBlock_sorted`: sorting a block sorts it.
-/
import RowStore.Join.Merge
import Mathlib.Order.Defs.LinearOrder

namespace RowStore

/-! ## 1. A total order of values -/

namespace Value

/-- Numbers stand before texts. -/
def rank : Value → Nat
  | int _ => 0
  | text _ => 1

def number : Value → Int
  | int n => n.toInt
  | text _ => 0

def bytes : Value → Bytes
  | int _ => []
  | text s => Utf8.encode s

def order : Value → Value → Ordering :=
  compareLex (compareOn rank) (compareLex (compareOn number) (compareOn bytes))

instance : Std.TransCmp order :=
  inferInstanceAs
    (Std.TransCmp (compareLex (compareOn rank) (compareLex (compareOn number) (compareOn bytes))))

/-- On values of one kind it is their order. -/
theorem compare?_eq {a b : Value} (h : a.rank = b.rank) : a.compare? b = some (order a b) := by
  cases a with
  | int n =>
    cases b with
    | int m => simp [compare?, order, compareLex, compareOn, rank, number, bytes]
    | text t => cases h
  | text s =>
    cases b with
    | int m => cases h
    | text t => simp [compare?, order, compareLex, compareOn, rank, number, bytes]

end Value

/-! ## 2. Join fields -/

/-- The value of a field. -/
def Row.key (row : Row) (field : Nat) : Value := (row.value? field).getD default

/-- The row has a value of the kind in the field. -/
def HasKey (rank field : Nat) (row : Row) : Prop :=
  ∃ v, row.value? field = some v ∧ v.rank = rank

theorem HasKey.value? {rank field : Nat} {row : Row} (h : HasKey rank field row) :
    row.value? field = some (row.key field) ∧ (row.key field).rank = rank := by
  obtain ⟨v, hv, hrank⟩ := h
  rw [Row.key, hv]
  exact ⟨rfl, hrank⟩

namespace Join

variable {rank lf rf : Nat} {l r : Row}

theorem compareFields_eq (hl : HasKey rank lf l) (hr : HasKey rank rf r) :
    compareFields l lf r rf = Value.order (l.key lf) (r.key rf) := by
  obtain ⟨hl, hkl⟩ := hl.value?
  obtain ⟨hr, hkr⟩ := hr.value?
  simp only [compareFields, hl, hr, Value.compare?_eq (hkl.trans hkr.symm), Option.getD_some]

/-- A condition accepts or rejects the order of the two fields. -/
theorem holds_eq {c : JoinCondition} (hc : c.comparison ≠ .like) (hl : HasKey rank c.left l)
    (hr : HasKey rank c.right r) :
    c.holds l r = c.comparison.accepts (Value.order (l.key c.left) (r.key c.right)) := by
  obtain ⟨hl, hkl⟩ := hl.value?
  obtain ⟨hr, hkr⟩ := hr.value?
  have hcompare := Value.compare?_eq (hkl.trans hkr.symm)
  simp only [JoinCondition.holds, hl, hr]
  unfold Comparison.holds
  split
  · rename_i hlike _ _
    exact absurd hlike hc
  · rw [hcompare, Option.any_some]

/-! ## 3. Sorted blocks -/

/-- The fields of the rows ascend. -/
def Sorted (field : Nat) (rows : List Row) : Prop :=
  rows.Pairwise fun a b => (Value.order (a.key field) (b.key field)).isLE

/-- Merging keeps the order.  What is put in front is no greater than the head of either list, and
so no greater than all that follows. -/
theorem mergeSorted_sorted {field : Nat} {ls rs : List Row}
    (hkl : ∀ l ∈ ls, HasKey rank field l) (hkr : ∀ r ∈ rs, HasKey rank field r)
    (hl : Sorted field ls) (hr : Sorted field rs) : Sorted field (mergeSorted field ls rs) := by
  fun_induction mergeSorted field ls rs with
  | case1 rs => exact hr
  | case2 ls => exact hl
  | case3 l ls r rs hgt ih =>
    have hrs : Sorted field rs := (List.pairwise_cons.mp hr).2
    have hrest := ih hkl (fun x hx => hkr x (List.mem_cons_of_mem _ hx)) hl hrs
    have hlt : Value.order (r.key field) (l.key field) = .lt := by
      rw [beq_iff_eq, compareFields_eq (hkl l List.mem_cons_self) (hkr r List.mem_cons_self)] at hgt
      exact Std.OrientedCmp.lt_of_gt hgt
    refine List.pairwise_cons.mpr ⟨fun x hx => ?_, hrest⟩
    rcases List.mem_append.mp ((mergeSorted_perm field _ _).mem_iff.mp hx) with hx | hx
    · rcases List.mem_cons.mp hx with rfl | hx
      · rw [hlt]
        rfl
      · have hle := (List.pairwise_cons.mp hl).1 x hx
        rw [Std.TransCmp.lt_of_lt_of_isLE hlt hle]
        rfl
    · exact (List.pairwise_cons.mp hr).1 x hx
  | case4 l ls r rs hgt ih =>
    have hls : Sorted field ls := (List.pairwise_cons.mp hl).2
    have hrest := ih (fun x hx => hkl x (List.mem_cons_of_mem _ hx)) hkr hls hr
    have hle : (Value.order (l.key field) (r.key field)).isLE := by
      rw [beq_iff_eq, compareFields_eq (hkl l List.mem_cons_self) (hkr r List.mem_cons_self)] at hgt
      exact Ordering.isLE_iff_ne_gt.mpr hgt
    refine List.pairwise_cons.mpr ⟨fun x hx => ?_, hrest⟩
    rcases List.mem_append.mp ((mergeSorted_perm field _ _).mem_iff.mp hx) with hx | hx
    · exact (List.pairwise_cons.mp hl).1 x hx
    · rcases List.mem_cons.mp hx with rfl | hx
      · exact hle
      · exact Std.TransCmp.isLE_trans hle ((List.pairwise_cons.mp hr).1 x hx)

/-- **Sorting a block sorts it.** -/
theorem sortBlock_sorted {field : Nat} {block : List Row}
    (h : ∀ row ∈ block, HasKey rank field row) : Sorted field (sortBlock field block) := by
  fun_induction sortBlock field block with
  | case1 block hshort =>
    cases block with
    | nil => exact List.Pairwise.nil
    | cons row rest =>
      obtain rfl := List.length_eq_zero_iff.mp (Nat.le_zero.mp (Nat.le_of_succ_le_succ hshort))
      exact List.pairwise_singleton _ _
  | case2 block hlong half ih₁ ih₂ =>
    have hfront : ∀ row ∈ block.take half, HasKey rank field row :=
      fun row hrow => h row (List.mem_of_mem_take hrow)
    have hback : ∀ row ∈ block.drop half, HasKey rank field row :=
      fun row hrow => h row (List.mem_of_mem_drop hrow)
    have hkl : ∀ l ∈ sortBlock field (block.take half), HasKey rank field l :=
      fun l hl => hfront l ((sortBlock_perm _ _).mem_iff.mp hl)
    have hkr : ∀ r ∈ sortBlock field (block.drop half), HasKey rank field r :=
      fun r hr => hback r ((sortBlock_perm _ _).mem_iff.mp hr)
    exact mergeSorted_sorted hkl hkr (ih₁ hfront) (ih₂ hback)

end Join
end RowStore
