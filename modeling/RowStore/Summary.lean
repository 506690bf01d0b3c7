/-
# Aggregate functions

The five functions that sum up a column.  `COUNT` is defined over any column, the others over
numbers only.
-/
import RowStore.DataType

namespace RowStore

inductive Summary where
  | count
  | sum
  | avg
  | min
  | max
deriving DecidableEq, Repr, Inhabited

namespace Summary

def accepts : Summary → DataType → Bool
  | count, _ => true
  | _, .int => true
  | _, _ => false

def render : Summary → String
  | count => "COUNT"
  | sum => "SUM"
  | avg => "AVG"
  | min => "MIN"
  | max => "MAX"

end Summary
end RowStore
