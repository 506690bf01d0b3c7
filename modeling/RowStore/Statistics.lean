/-
# Statistics of tables

The statistics of a table are the number of its rows and a histogram of each column.  They take
two scans: the first finds the range of each column of numbers, the second fills the histograms.
What the scans cost is in no estimate.
-/
import RowStore.Histogram.Column
import RowStore.Settings
import RowStore.Stream.Scan

namespace RowStore

structure TableStats where
  table : TableRef
  /-- What reading a page costs. -/
  pageCost : Float
  /-- How many rows were found. -/
  total : Nat
  /-- One for each column. -/
  histograms : List Histogram

namespace TableStats

/-! ## 1. Two passes -/

/-- The least and the greatest of a column's numbers. -/
abbrev Range := Option (Int × Int)

/-- The range that also reaches a value.  Texts have no range. -/
def Range.add (range : Range) : Value → Range
  | .text _ => range
  | .int n =>
    match range with
    | none => some (n.toInt, n.toInt)
    | some (least, greatest) => some (min least n.toInt, max greatest n.toInt)

/-- Changes what is kept of each column by the column's value.  What has no value stays. -/
def changeEach {α : Type} (change : α → Value → α) : List α → List Value → List α
  | a :: kept, v :: values => change a v :: changeEach change kept values
  | kept, _ => kept

/-- The range of each column. -/
def ranges (schema : Schema) (rows : List Row) : List Range :=
  rows.foldl (fun kept row => changeEach Range.add kept row.values)
    (schema.columns.map fun _ => none)

/-- The histogram of a column whose numbers have the range.  Without numbers, zero is the
range. -/
def emptyHistogram (buckets : Nat) (c : Column) (range : Range) : Except Error Histogram :=
  match c.type with
  | .int =>
    let (least, greatest) := range.getD (0, 0)
    Histogram.numbers <$> NumberHistogram.make buckets least greatest
  | .text _ => Histogram.texts <$> TextHistogram.make buckets

/-- Counts the values of a row, each in the histogram of its column. -/
def addRow (histograms : List Histogram) (row : Row) : List Histogram :=
  changeEach Histogram.add histograms row.values

/-- Works out the statistics of a table. -/
def compute (table : TableRef) (pageCost : Float) (buckets : Nat) : DbM TableStats := do
  let schema := (← Database.file table).layout.schema
  let scan := Scan.stream table schema
  let passes : StreamM Scan.State TableStats := do
    scan.start
    let rows ← scan.collect
    let pairs := schema.columns.zip (ranges schema rows)
    let empty ← StreamM.onDatabase <| Database.attempt <|
      pairs.mapM fun (c, range) => emptyHistogram buckets c range
    scan.rewind
    let histograms := (← scan.collect).foldl addRow empty
    return { table, pageCost, total := rows.length, histograms }
  passes.runFrom none

/-! ## 2. Estimates -/

/-- The cost of a scan of the table as it is now.  A page costs the same however full it is. -/
def scanCost (stats : TableStats) : DbM Float := do
  return Float.ofNat (← Database.file stats.table).pageCount * stats.pageCost

/-- How many rows a condition leaves that the part `selectivity` of the rows satisfies, a part of
a row counted as a whole one. -/
def cardinality (stats : TableStats) (selectivity : Float) : Nat :=
  (Float.ofNat stats.total * selectivity).ceil.toUInt64.toNat

def histogram? (stats : TableStats) (field : Nat) : Option Histogram := stats.histograms[field]?

/-- The part of the rows whose field is estimated to compare with the operand. -/
def estimate (stats : TableStats) (field : Nat) (c : Comparison) (operand : Value) :
    Except Error Float :=
  match stats.histogram? field with
  | none => .error (.noSuchColumn field)
  | some h => h.estimate c operand

/-- What is assumed when nothing is known about the operand. -/
def average (_ : TableStats) : Float := 1.0

end TableStats

/-! ## 3. All tables -/

/-- Statistics by the names of their tables. -/
abbrev StatsRegistry := Std.TreeMap String TableStats

namespace StatsRegistry

/-- Works out the statistics of the tables in turn. -/
def computeEach (settings : Settings) (registry : StatsRegistry) : List TableId → DbM StatsRegistry
  | [] => return registry
  | id :: ids => do
    match (← get).catalog.tables[id]? with
    | none => throw (.noSuchTable id)
    | some entry =>
      let stats ← TableStats.compute entry.file settings.pageCost settings.buckets
      computeEach settings (registry.insert entry.name stats) ids

/-- Works out the statistics of every table of the catalog. -/
def computeAll (settings : Settings) : DbM StatsRegistry := do
  computeEach settings ∅ (← get).catalog.tableIds

end StatsRegistry
end RowStore
