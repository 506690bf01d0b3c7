/-
# Merging two sorted blocks

A join compares one field of the rows of its outer side with one of its inner side.  Two blocks
of rows that are sorted on these fields are joined without looking at every pair.

* for `=`, both blocks are walked together; where the fields are equal, all rows of the one run
  of equal fields meet all of the other;
* for `>` and `>=`, each outer row meets inner rows from the front, up to the first that does not
  satisfy the condition;
* for `<` and `<=`, the same from the back.

The pairs are put together in this order: by the outer row, then by the inner one.
-/
import RowStore.Join.Sort

namespace RowStore
namespace Join

/-- All rows of the one list with all of the other. -/
def product (ls rs : List Row) : List Row := ls.flatMap fun l => rs.map (l ++ ·)

/-- The pairs of equal fields of two sorted blocks. -/
def mergeEqual (lf rf : Nat) : List Row → List Row → List Row
  | [], _ => []
  | _, [] => []
  | l :: ls, r :: rs =>
    match compareFields l lf r rf with
    | .lt => mergeEqual lf rf ls (r :: rs)
    | .gt => mergeEqual lf rf (l :: ls) rs
    | .eq =>
      product (l :: ls.takeWhile (sameField lf l)) (r :: rs.takeWhile (sameField rf r)) ++
        mergeEqual lf rf (ls.dropWhile (sameField lf l)) (rs.dropWhile (sameField rf r))
termination_by ls rs => ls.length + rs.length
decreasing_by
  all_goals simp_wf
  · have h₁ := (List.dropWhile_sublist (l := ls) (sameField lf l)).length_le
    have h₂ := (List.dropWhile_sublist (l := rs) (sameField rf r)).length_le
    omega

/-- Each outer row with the inner rows from the front, as long as they satisfy the condition. -/
def mergeRuns (condition : JoinCondition) (ls rs : List Row) : List Row :=
  ls.flatMap fun l => (rs.takeWhile (condition.holds l)).map (l ++ ·)

/-- The pairs of two sorted blocks that satisfy the condition.  A join has no other comparisons
than the five. -/
def mergeBlocks (condition : JoinCondition) (ls rs : List Row) : List Row :=
  match condition.comparison with
  | .eq => mergeEqual condition.left condition.right ls rs
  | .gt | .ge => mergeRuns condition ls rs
  | .lt | .le => mergeRuns condition ls rs.reverse
  | .ne | .like => []

end Join
end RowStore
