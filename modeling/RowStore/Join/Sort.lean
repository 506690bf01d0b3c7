/-
# Sorting a block on a field

A block of rows is cut in halves, which are sorted and merged.  Rows whose fields compare equal
keep the order that they came in.

* `Join.sortBlock_perm`: sorting loses no row and makes none.
-/
import RowStore.JoinCondition

namespace RowStore
namespace Join

/-- The order of two fields.  What cannot be compared counts as equal. -/
def compareFields (l : Row) (lf : Nat) (r : Row) (rf : Nat) : Ordering :=
  match l.value? lf, r.value? rf with
  | some a, some b => (a.compare? b).getD .eq
  | _, _ => .eq

/-- Both rows have the same value in the field, as far as it compares. -/
def sameField (field : Nat) (a b : Row) : Bool := compareFields a field b field == .eq

/-- Merges two sorted lists.  Of rows that compare equal, those of the first list come first. -/
def mergeSorted (field : Nat) : List Row → List Row → List Row
  | [], rs => rs
  | ls, [] => ls
  | l :: ls, r :: rs =>
    if compareFields l field r field == .gt then r :: mergeSorted field (l :: ls) rs
    else l :: mergeSorted field ls (r :: rs)
termination_by ls rs => ls.length + rs.length

/-- The rows by ascending field. -/
def sortBlock (field : Nat) (block : List Row) : List Row :=
  if block.length ≤ 1 then block
  else
    let half := block.length / 2
    mergeSorted field (sortBlock field (block.take half)) (sortBlock field (block.drop half))
termination_by block.length
decreasing_by
  all_goals simp only [List.length_take, List.length_drop]; omega

theorem mergeSorted_perm (field : Nat) (ls rs : List Row) :
    (mergeSorted field ls rs).Perm (ls ++ rs) := by
  fun_induction mergeSorted field ls rs with
  | case1 rs => simp
  | case2 ls => simp
  | case3 l ls r rs h ih =>
    exact (ih.cons r).trans List.perm_middle.symm
  | case4 l ls r rs h ih => simpa using ih

theorem sortBlock_perm (field : Nat) (block : List Row) :
    (sortBlock field block).Perm block := by
  fun_induction sortBlock field block with
  | case1 block h => exact List.Perm.refl _
  | case2 block h half ih₁ ih₂ =>
    exact (mergeSorted_perm _ _ _).trans
      ((ih₁.append ih₂).trans (by rw [List.take_append_drop]))

@[simp] theorem length_sortBlock (field : Nat) (block : List Row) :
    (sortBlock field block).length = block.length := (sortBlock_perm field block).length_eq

end Join
end RowStore
