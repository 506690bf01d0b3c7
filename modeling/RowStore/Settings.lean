/-
# Settings

The sizes and costs that the storage, join and statistics layers share.
-/
import RowStore.Error

namespace RowStore

structure Settings where
  /-- Bytes of a page, the same in all tables of a catalog. -/
  pageSize : Nat := 4096
  /-- Pages that the cache holds. -/
  poolPages : Nat := 50
  /-- Bytes for one side of a join. -/
  joinBudget : Nat := 131072
  /-- Buckets of the histogram of a column. -/
  buckets : Nat := 100
  /-- What reading a page costs in a scan. -/
  pageCost : Float := 1000.0
deriving Inhabited

namespace Settings

/-- The first setting that no component can work with.  A cost that is no number is refused
too. -/
def validate (s : Settings) : Except Error Unit :=
  if s.pageSize = 0 then .error (.config .zeroPageSize)
  else if s.poolPages = 0 then .error .zeroCapacity
  else if s.joinBudget = 0 then .error (.config .zeroJoinBudget)
  else if s.buckets = 0 then .error (.config .zeroBuckets)
  else if s.pageCost >= 0.0 then .ok ()
  else .error (.config (.badPageCost s.pageCost.toBits))

end Settings
end RowStore
