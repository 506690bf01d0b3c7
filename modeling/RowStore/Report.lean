/-
# The report of the program

The program fills two small tables and shows what the store can do with them: statistics, a
join and an aggregate.  Everything is worked out here; the program only prints it.
-/
import RowStore.Decimal.Fixed
import RowStore.Plan
import RowStore.Statistics

namespace RowStore
namespace Report

/-! ## 1. The tables -/

def users : Schema := ⟨[⟨"id", .int⟩, ⟨"name", .text 32⟩]⟩

def orders : Schema := ⟨[⟨"user_id", .int⟩, ⟨"amount", .int⟩]⟩

def userRows : List (List Value) :=
  [[.int 1, .text "Alice"], [.int 2, .text "Bob"], [.int 3, .text "Carol"]]

def orderRows : List (List Value) :=
  [[.int 1, .int 30], [.int 1, .int 12], [.int 3, .int 99], [.int 4, .int 7]]

/-- Stores rows of the schema in a table. -/
def fill (table : TableId) (schema : Schema) : List (List Value) → DbM Unit
  | [] => return
  | values :: rest => do
    let _ ← Database.insertValues table schema values
    fill table schema rest

/-! ## 2. The parts of the report -/

def title : String :=
  "Kiln - a teaching relational storage engine\n" ++
  "===========================================\n\n"

/-- The rows of a plan. -/
def rowsOf (plan : Plan) : DbM (List Row) := do
  let rows : StreamM plan.State (List Row) := do
    plan.stream.start
    plan.stream.collect
  rows.runFrom plan.closed

/-- The name of a column. -/
def columnName (schema : Schema) (field : Nat) : String :=
  ((schema.column? field).map (·.name)).getD ""

/-- One row on a line of its own. -/
def line (row : Row) : String := "  " ++ row.render ++ "\n"

/-- What the statistics say about the orders. -/
def estimates (stats : StatsRegistry) : DbM String := do
  match stats["orders"]? with
  | none => return ""
  | some s =>
    let selectivity ← Database.attempt (s.estimate 1 .gt (.int 20))
    let cost ← s.scanCost
    return "orders: " ++ s.total.repr ++ " tuples, scan cost " ++ Decimal.shortest cost.toBits ++
      ", amount > 20 selects ~" ++ Decimal.fixed 1 selectivity.toBits ++
      " (" ++ (s.cardinality selectivity).repr ++ " tuples)\n"

/-- The whole report, on a database without tables. -/
def text (settings : Settings) : DbM String := do
  let _ ← Database.openTable "users" "users.dat" users
  let _ ← Database.openTable "orders" "orders.dat" orders
  fill 0 users userRows
  fill 1 orders orderRows
  Database.flushAll
  let stats ← StatsRegistry.computeAll settings
  let estimated ← estimates stats
  let condition : JoinCondition := ⟨0, .eq, 0⟩
  let userScan ← Plan.scanOf (← Database.tableOf 0)
  let orderScan ← Plan.scanOf (← Database.tableOf 1)
  let join ← Database.attempt (Plan.join? condition userScan orderScan settings.joinBudget)
  let pairs ← rowsOf join
  let totals ← Database.attempt (Plan.aggregate? orderScan 1 (some 0) .sum)
  let sums ← rowsOf totals
  return title ++ estimated ++
    "\nusers JOIN orders ON " ++ columnName users condition.left ++ " = " ++
    columnName orders condition.right ++ ":\n" ++ String.join (pairs.map line) ++
    "\n" ++ Summary.sum.render ++ " per " ++ columnName orders 0 ++ ":\n" ++
    String.join (sums.map line) ++
    "\nDemo completed successfully!\n"

/-- The report of a fresh store, or why there is none. -/
def run (settings : Settings) : Except Error String := do
  settings.validate
  let db ← Database.make settings.pageSize settings.poolPages
  match (text settings).run db with
  | .ok report _ => return report
  | .error e _ => throw e

end Report
end RowStore
