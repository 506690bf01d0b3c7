/-
# Join conditions

A join keeps the pairs of rows whose two join fields compare as asked.
-/
import RowStore.Comparison
import RowStore.Row

namespace RowStore

/-- The condition of a join: a field of the left row against a field of the right one. -/
structure JoinCondition where
  left : Nat
  comparison : Comparison
  right : Nat
deriving DecidableEq, Repr, Inhabited

namespace JoinCondition

/-- The condition on two rows.  A field that a row does not have matches nothing. -/
def holds (c : JoinCondition) (l r : Row) : Bool :=
  match l.value? c.left, r.value? c.right with
  | some a, some b => c.comparison.holds a b
  | _, _ => false

def render (c : JoinCondition) : String :=
  "$" ++ c.left.repr ++ " " ++ c.comparison.render ++ " $" ++ c.right.repr

end JoinCondition
end RowStore
